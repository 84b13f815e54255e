import HclTidy.FileName
import HclTidy.Pattern

/-!
# Grouping configuration

A configuration is a list of groups, each of which sends the blocks that match one of its patterns
to a file, and a list of patterns for file names that must not be used.
-/

set_option autoImplicit false

namespace HclTidy

structure Group where
  name : Text
  fileName : Text
  patterns : List Text
deriving Repr, DecidableEq

structure Config where
  groups : List Group
  excludedFiles : List Text
deriving Repr, DecidableEq

/-- The group has a pattern that matches. -/
def Group.accepts (g : Group) (candidate : Text) : Bool :=
  g.patterns.any fun p => Pattern.isMatch p candidate

namespace Config

def empty : Config := ⟨[], []⟩

/-- The first declared group that accepts a candidate. -/
def groupFor? (config : Config) (candidate : Text) : Option Group :=
  config.groups.find? fun g => g.accepts candidate

def isExcluded (config : Config) (fileName : Text) : Bool :=
  config.excludedFiles.any fun p => Pattern.isMatch p fileName

end Config

end HclTidy
