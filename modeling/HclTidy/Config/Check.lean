import HclTidy.Config.Basic
import HclTidy.Config.Document

/-!
# Checking a configuration

`Config.ofDocument` reads a configuration from a document and reports the first problem: unknown
fields, then wrong types, then the rules of `Config.check`, in this order: each group, the excluded
files, and what must be distinct. Group and pattern numbers begin at 1.
-/

set_option autoImplicit false

namespace HclTidy

inductive PatternFault where
  | empty
  | tooLong
  | invalidCharacter (pattern : Text)
deriving Repr, DecidableEq

/-- Where a pattern stands. -/
inductive PatternPlace where
  | inGroup (group : Nat) (name : Text) (index : Nat)
  | inExcluded (index : Nat)
deriving Repr, DecidableEq

/-- Where a list of texts stands. -/
inductive ListPlace where
  | patterns (group : Nat) (name : Text)
  | excludedFiles
deriving Repr, DecidableEq

inductive ConfigFault where
  | notMap
  /-- Unexpected fields: the deprecated ones, and the unknown ones with their groups. -/
  | fields (deprecated : List Text) (unknown : List (Text × Option Nat))
  | groupsNotList
  | groupNotMap (group : Nat)
  | namesNotText (group : Nat)
  | notTexts (place : ListPlace)
  | noName (group : Nat)
  | noFileName (group : Nat) (name : Text)
  | fileName (group : Nat) (name : Text) (fault : FileName.Fault)
  | noPattern (group : Nat) (name : Text)
  | pattern (place : PatternPlace) (fault : PatternFault)
  | duplicateName (name : Text) (group : Nat)
  | duplicateFile (file name : Text) (group : Nat) (firstName : Text)
  | duplicatePattern (pattern firstName secondName : Text)
deriving Repr, DecidableEq

namespace Config

def maxPatternLength : Nat := 100

/-- How deep a document is looked into: the groups, a group, its patterns and each of them lie
inside the document. -/
def documentDepth : Nat := 5

def topLevelFields : List Text := ["groups".toList, "exclude_files".toList]

def groupFields : List Text := ["name".toList, "filename".toList, "patterns".toList]

/-- Fields of earlier versions, with what to do instead. -/
def deprecatedFields : List (Text × String) :=
  [("exclude".toList, "use 'exclude_files' instead"), ("overrides".toList, "no longer supported")]

end Config

def PatternFault.message : PatternFault → String
  | .empty => "pattern cannot be empty"
  | .tooLong => "pattern too long (max " ++ toString Config.maxPatternLength ++ " chars)"
  | .invalidCharacter pattern => "pattern '" ++ pattern.str ++ "' contains invalid characters"

/-- A group in messages. -/
def ConfigFault.groupText (group : Nat) (name : Text) : String :=
  "group " ++ toString group ++ " (" ++ name.str ++ ")"

def PatternPlace.text : PatternPlace → String
  | .inGroup group name index => ConfigFault.groupText group name ++ ", pattern " ++ toString index
  | .inExcluded index => "exclude file pattern " ++ toString index

def ListPlace.text : ListPlace → String
  | .patterns group name => ConfigFault.groupText group name ++ ": patterns"
  | .excludedFiles => "'exclude_files'"

namespace ConfigFault

def fieldText (field : Text × Option Nat) : String :=
  match field.2 with
  | none => "'" ++ field.1.str ++ "'"
  | some group => "'" ++ field.1.str ++ "' in group " ++ toString group

def deprecatedText (field : Text) : String :=
  "'" ++ field.str ++ "' (" ++ (Config.deprecatedFields.lookup field).getD "" ++ ")"

def message : ConfigFault → String
  | notMap => "config file must contain a YAML mapping at the top level"
  | fields deprecated unknown =>
    let parts :=
      (if deprecated.isEmpty then []
       else ["deprecated fields found: " ++ ", ".intercalate (deprecated.map deprecatedText)]) ++
      (if unknown.isEmpty then []
       else ["unknown fields found: " ++ ", ".intercalate (unknown.map fieldText)])
    "invalid configuration fields: " ++ "; ".intercalate parts
  | groupsNotList => "'groups' must be a list"
  | groupNotMap group => "group " ++ toString group ++ " must be a mapping"
  | namesNotText group => "group " ++ toString group ++ ": name and filename must be strings"
  | notTexts place => place.text ++ " must be a list of strings"
  | noName group => "group " ++ toString group ++ ": name cannot be empty"
  | noFileName group name => groupText group name ++ ": filename cannot be empty"
  | fileName group name fault => groupText group name ++ ": invalid filename: " ++ fault.message
  | noPattern group name => groupText group name ++ ": at least one pattern is required"
  | pattern place fault => place.text ++ ": " ++ fault.message
  | duplicateName name group =>
    "duplicate group name '" ++ name.str ++ "' at group " ++ toString group
  | duplicateFile file name group firstName =>
    "duplicate filename '" ++ file.str ++ "' in group '" ++ name.str ++ "' (group "
      ++ toString group ++ ") - already used by group '" ++ firstName.str ++ "'"
  | duplicatePattern shared firstName secondName =>
    "pattern '" ++ shared.str ++ "' appears in multiple groups: '" ++ firstName.str ++ "' and '"
      ++ secondName.str ++ "'"

end ConfigFault

namespace Config

/-- Elements with their numbers from 1. -/
def numbered {α : Type} (xs : List α) : List (Nat × α) := xs.zipIdx.map fun (x, i) => (i + 1, x)

/-- The first rule that a pattern breaks. -/
def patternFault? (pattern : Text) : Option PatternFault :=
  if pattern.isEmpty then some .empty
  else if pattern.length > maxPatternLength then some .tooLong
  else if pattern.any ['\x00', '\n', '\r', '\t'].contains then some (.invalidCharacter pattern)
  else none

def groupFault? (number : Nat) (g : Group) : Option ConfigFault :=
  if g.name.isEmpty then some (.noName number)
  else if g.fileName.isEmpty then some (.noFileName number g.name)
  else
    match FileName.fault? g.fileName with
    | some fault => some (.fileName number g.name fault)
    | none =>
      if g.patterns.isEmpty then some (.noPattern number g.name)
      else
        (numbered g.patterns).findSome? fun (index, p) =>
          (patternFault? p).map (.pattern (.inGroup number g.name index))

def excludedFault? (patterns : List Text) : Option ConfigFault :=
  (numbered patterns).findSome? fun (index, p) =>
    (patternFault? p).map (.pattern (.inExcluded index))

/-- The first group whose name an earlier group has. -/
def duplicateName? (seen : List Text) : List (Nat × Group) → Option ConfigFault
  | [] => none
  | (number, g) :: rest =>
    if seen.contains g.name then some (.duplicateName g.name number)
    else duplicateName? (g.name :: seen) rest

/-- The first group whose file an earlier group has; `seen` maps files to group names. -/
def duplicateFile? (seen : List (Text × Text)) : List (Nat × Group) → Option ConfigFault
  | [] => none
  | (number, g) :: rest =>
    match seen.lookup g.fileName with
    | some first => some (.duplicateFile g.fileName g.name number first)
    | none => duplicateFile? ((g.fileName, g.name) :: seen) rest

/-- The first pattern that occurs before; patterns come with the names of their groups. -/
def duplicatePattern? (seen : List (Text × Text)) : List (Text × Text) → Option ConfigFault
  | [] => none
  | (pattern, name) :: rest =>
    match seen.lookup pattern with
    | some first => some (.duplicatePattern pattern first name)
    | none => duplicatePattern? ((pattern, name) :: seen) rest

/-- The patterns of all groups, each with the name of its group. -/
def ownedPatterns (groups : List Group) : List (Text × Text) :=
  groups.flatMap fun g => g.patterns.map fun p => (p, g.name)

/-- The first rule that a configuration breaks. -/
def fault? (config : Config) : Option ConfigFault :=
  let groups := numbered config.groups
  (groups.findSome? fun (number, g) => groupFault? number g)
    <|> excludedFault? config.excludedFiles
    <|> duplicateName? [] groups
    <|> duplicateFile? [] groups
    <|> duplicatePattern? [] (ownedPatterns config.groups)

/-- The keys of a map that are none of the given fields. -/
def otherKeys (fields : List Text) (entries : List (Document × Document)) : List Document :=
  (entries.map Prod.fst).filter fun key => !fields.any (key.isText ·)

/-- The keys that no group has, with the numbers of their groups. -/
def strangeGroupKeys (entries : List (Document × Document)) : List (Document × Nat) :=
  match Document.field? entries "groups".toList with
  | some (.list items) =>
    (numbered items).flatMap fun (number, item) =>
      match item with
      | .map fields => (otherKeys groupFields fields).map fun key => (key, number)
      | _ => []
  | _ => []

/-- The keys of a document that no configuration has, and that are to be shown therefore. -/
def strangeKeys : Document → List Document
  | .map entries =>
    otherKeys topLevelFields entries ++ (strangeGroupKeys entries).map Prod.fst
  | _ => []

/-- The fields of a document that no configuration has. -/
def fieldsFault? (entries : List (Document × Document)) : Option ConfigFault :=
  let isDeprecated (key : Document) := deprecatedFields.any fun d => key.isText d.1
  let (old, new) := (otherKeys topLevelFields entries).partition isDeprecated
  let deprecated := old.map Document.printed
  let unknown :=
    new.map (fun key => (key.printed, none)) ++
      (strangeGroupKeys entries).map fun (key, number) => (key.printed, some number)
  if deprecated.isEmpty && unknown.isEmpty then none else some (.fields deprecated unknown)

/-- A list of texts; an absent one is empty. -/
def textList (place : ListPlace) : Option Document → Except ConfigFault (List Text)
  | none => .ok []
  | some .null => .ok []
  | some (.list items) =>
    match Document.texts? items with
    | some ts => .ok ts
    | none => .error (.notTexts place)
  | some _ => .error (.notTexts place)

/-- A field that must be a text; an absent or empty one is the empty text. -/
def textField? (value : Option Document) : Option Text :=
  match value with
  | none => some []
  | some (.text t) => some t
  | some value => if value.isFalsy then some [] else none

def groupOfDocument (number : Nat) : Document → Except ConfigFault Group
  | .map fields =>
    match textField? (Document.field? fields "name".toList),
        textField? (Document.field? fields "filename".toList) with
    | some name, some fileName =>
      match textList (.patterns number name) (Document.field? fields "patterns".toList) with
      | .ok patterns => .ok ⟨name, fileName, patterns⟩
      | .error fault => .error fault
    | _, _ => .error (.namesNotText number)
  | _ => .error (.groupNotMap number)

def groupsOfDocument : Option Document → Except ConfigFault (List Group)
  | none => .ok []
  | some (.list items) => (numbered items).mapM fun (number, item) => groupOfDocument number item
  | some value => if value.isFalsy then .ok [] else .error .groupsNotList

/-- The configuration that a document describes; no document describes the empty one. -/
def ofDocument : Document → Except ConfigFault Config
  | .null => .ok .empty
  | .map entries =>
    match fieldsFault? entries with
    | some fault => .error fault
    | none => do
      let groups ← groupsOfDocument (Document.field? entries "groups".toList)
      let excluded ← textList .excludedFiles (Document.field? entries "exclude_files".toList)
      let config : Config := ⟨groups, excluded⟩
      match config.fault? with
      | some fault => .error fault
      | none => .ok config
  | _ => .error .notMap

end Config

end HclTidy
