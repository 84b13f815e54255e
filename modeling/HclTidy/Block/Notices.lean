import HclTidy.Block.Parser
import HclTidy.Notice

/-!
# What reading a file reports

Skipped top-level attributes are warnings. Block types without a label count and interpolations
that are no expressions are noted for debugging only.
-/

set_option autoImplicit false

namespace HclTidy.ParseEvent

/-- The parts of a template token. -/
def partsOfToken (token : Token) : List Template.Part :=
  if token.kind = .heredoc then Template.partsOf false (heredocBody token.text)
  else Template.partsOf true token.text

/-- The notices on a template: for every interpolation those on the templates inside it, then its
own. An inner template is shorter than the one around it, so its length bounds the depth. -/
def templateNotices : Nat → Token → List Notice
  | 0, _ => []
  | depth + 1, token =>
    (partsOfToken token).flatMap fun part =>
      match part with
      | .interpolation false inner =>
        let source := Template.stripMarkers inner
        let within (events : List ParseEvent) : List Notice :=
          events.reverse.flatMap fun event =>
            match event with
            | .template token => templateNotices depth token
            | _ => []
        match Expr.ofText source with
        | .ok (_, events) => within events
        | .error failure =>
          within failure.events ++
            [.debug ("Could not parse interpolation " ++ Text.quoted source ++ ": "
              ++ failure.error.message)]
      | _ => []

/-- The notices on one event in a file. -/
def notices (file : Text) : ParseEvent → List Notice
  | .template token => templateNotices (token.text.length + 1) token
  | .skippedAttribute name line =>
    [.warning ("Warning: skipping top-level attribute '" ++ name.str ++ "' in "
      ++ (if file.isEmpty then "<input>" else file.str) ++ " (line " ++ toString line ++ ")")]
  | .unrecognisedBlock type =>
    [.debug ("Keeping unrecognized block type '" ++ type.str ++ "' in " ++ file.str)]

/-- The notices on all events of a file, given latest first. -/
def allNotices (file : Text) (events : List ParseEvent) : List Notice :=
  events.reverse.flatMap (notices file)

end HclTidy.ParseEvent
