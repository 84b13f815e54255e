import Mathlib
import HclTidy.CommandLine.Run
import HclTidy.Yaml.Reader

/-!
# How loading a configuration breaks off

A file of less than two portions that is not UTF-8 always makes loading break off, as its first bytes
are asked for together with the fault. A plain scalar makes it break off only when it is spelled like
a number or a timestamp. A check of a configuration ends without a report where loading breaks off,
and nowhere else.
-/

set_option autoImplicit false

namespace HclTidy

/-! ## Bytes that are no text -/

namespace Stream

open Utf8

theorem characterCount_le (bytes : Bytes) : characterCount bytes ≤ bytes.length := by
  have hcount : (bytes.take (bytes.length - unfinishedBytes bytes)).countP (fun b => !isContinuation b) ≤
      _ := List.countP_le_length
  have htake := List.length_take_le' (bytes.length - unfinishedBytes bytes) bytes
  unfold characterCount
  dsimp only
  omega

/-- Behind the last byte only whole portions are taken off what is available. -/
theorem locate_at_end {bytes : Bytes} (shows : Nat) (fuel : Nat) {p : Progress}
    (h : bytes.length ≤ p.offset) :
    (locate bytes shows fuel p).1 ≤ p.portions + p.available / portionSize := by
  induction fuel generalizing p with
  | zero => exact Nat.le_add_right ..
  | succ fuel ih =>
    rw [locate]
    split
    · next havailable =>
      have hrest := ih (p := { p with available := p.available - portionSize, portions := p.portions + 1 }) h
      have hdiv := Nat.div_eq_sub_div (show 0 < portionSize by decide) havailable
      dsimp only at hrest
      omega
    · have hstop : min (p.offset + nextPiece p (portionSize - p.available)) bytes.length ≤ p.offset :=
        (Nat.min_le_right ..).trans h
      rw [if_pos (by rw [decide_eq_true hstop, Bool.or_true])]
      exact Nat.le_add_right ..

/-- In a short file no fault shows behind the portions that are read at the beginning. -/
theorem failure_portions {bytes : Bytes} (f : Fault) (h : bytes.length < 2 * portionSize) :
    (failure bytes f).1 < 2 := by
  have hpiece : pieceSize ≤ nextPiece ⟨0, 0, 0, 0⟩ (portionSize - 0) := Nat.le_max_left ..
  have hstop : min (0 + nextPiece ⟨0, 0, 0, 0⟩ (portionSize - 0)) bytes.length = bytes.length := by
    have hsize : pieceSize = 2 * portionSize := rfl
    omega
  have hcount := characterCount_le bytes
  change (locate bytes (showsAt bytes f) (2 * bytes.length + 2) ⟨0, 0, 0, 0⟩).1 < 2
  rw [locate, if_neg (by decide)]
  dsimp only
  rw [hstop]
  split
  · exact Nat.zero_lt_two
  · rw [List.take_length]
    refine Nat.lt_of_le_of_lt (locate_at_end _ _ (Nat.le_refl _)) ?_
    rw [Nat.zero_add, Nat.div_lt_iff_lt_mul (by decide)]
    dsimp only
    omega

end Stream

namespace Yaml

theorem readDocument_fault (depth : Nat) (fault : Fault) :
    readDocument depth ⟨[], some fault⟩ = .error fault := rfl

/-- The source of a short file that is not UTF-8 has no text in front of its fault. -/
theorem ofBytes_short {content : Bytes} {fault : Utf8.Fault} (h : Utf8.decode content = .error fault)
    (hlength : content.length < 2 * Stream.portionSize) :
    ∃ f, Source.ofBytes content = ⟨[], some (.encoding f)⟩ := by
  unfold Utf8.decode at h
  split at h
  · cases h
  · next front fault' hfront =>
    have hportions := Stream.failure_portions fault' hlength
    refine ⟨(Stream.failure content fault').2, ?_⟩
    unfold Source.ofBytes
    rw [hfront]
    dsimp only
    have hstart : Source.portionStart (Stream.failure content fault').1 = 0 := if_pos hportions
    rw [hstart]
    rfl

namespace Scalar

theorem boolean_of_isBoolean {text : Text} (h : isBoolean text = true) : ∃ b, boolean text = .ok b := by
  rw [isBoolean, List.any_eq_true] at h
  obtain ⟨s, hs, heq⟩ := h
  obtain rfl := of_decide_eq_true heq
  fin_cases hs
  all_goals exact ⟨_, rfl⟩

/-- A plain scalar without a value is spelled like a number or a timestamp. -/
theorem spelled_of_fault {text : Text} (hbreak : text.getLast? ≠ some '\n') {fault : ScalarFault}
    (h : value (implicitTag text) text = .error (.scalar fault)) :
    isInteger text = true ∨ isFloat text = true ∨ isTimestamp text = true := by
  have hwhole : withoutFinalBreak text = text := if_neg (by simp [hbreak])
  unfold implicitTag at h
  rw [hwhole] at h
  dsimp only at h
  split_ifs at h with hboolean hfloat hinteger hmerge hnull htimestamp hvalue
  · obtain ⟨b, hb⟩ := boolean_of_isBoolean hboolean
    have hbool : value (coreTag "bool") text = .ok (.bool b) := by
      unfold value
      rw [if_neg (by decide), if_neg (by decide), if_pos rfl, hb]
    rw [hbool] at h
    cases h
  · exact .inr (.inl hfloat)
  · exact .inl hinteger
  · have hmerge : value (coreTag "merge") text = .error .malformed := rfl
    rw [hmerge] at h
    cases h
  · have hnull : value (coreTag "null") text = .ok .null := rfl
    rw [hnull] at h
    cases h
  · exact .inr (.inr htimestamp)
  · have hvalue : value (coreTag "value") text = .error .malformed := rfl
    rw [hvalue] at h
    cases h
  · have hstr : value (coreTag "str") text = .ok (.text text) := rfl
    rw [hstr] at h
    cases h

end Scalar

end Yaml

/-! ## Loading -/

namespace Config

/-- The file that a path leads to holds `content`. -/
def Holds (tree : Tree) (path : Text) (content : Bytes) : Prop :=
  ∃ place mode, tree.entryAt true (Path.absolute (PathCheck.currentPath tree) path) =
    .ok (place, .file content mode)

/-- A short file that is not UTF-8 makes loading break off. -/
theorem load_of_not_utf8 {tree : Tree} {path : Text} (hpath : path ≠ []) {content : Bytes}
    (hholds : Holds tree path content) (hlength : content.length < 2 * Stream.portionSize)
    {fault : Utf8.Fault} (hfault : Utf8.decode content = .error fault) :
    ∃ f, load Yaml.reader tree path = .error (.breakdown (.encoding f)) := by
  obtain ⟨place, mode, hentry⟩ := hholds
  obtain ⟨f, hsource⟩ := Yaml.ofBytes_short hfault hlength
  have hsize : ¬ content.length > maxFileSize := by
    have hle : 2 * Stream.portionSize ≤ maxFileSize := by decide
    omega
  refine ⟨f, ?_⟩
  unfold load
  rw [if_neg (by simpa using hpath)]
  dsimp only
  rw [hentry]
  dsimp only
  rw [if_neg hsize, ofBytes, Yaml.reader, hsource, Yaml.readDocument_fault]
  rfl

/-- Loading breaks off only at a path that cannot be looked up, or in the content of the file. -/
theorem breakdown_of_load {reader : Reader} {tree : Tree} {path : Text} {cause : Breakdown}
    (h : load reader tree path = .error (.breakdown cause)) :
    cause = .embeddedNul ∨ ∃ content, Holds tree path content ∧ content.length ≤ maxFileSize ∧
      ofBytes reader content = .error (.breakdown cause) := by
  unfold load at h
  split at h
  · cases h
  · dsimp only at h
    split at h
    · cases h
      exact .inl rfl
    · cases h
    · next place content mode hentry =>
      split at h
      · cases h
      · next hsize => exact .inr ⟨content, ⟨place, mode, hentry⟩, Nat.not_lt.mp hsize, h⟩
    · cases h

end Config

namespace CommandLine

/-- A check of a configuration whose path may be used says that it is valid, or reports why it is
not, unless loading it breaks off. -/
theorem checkConfig_ending (threshold : Severity) (reader : Config.Reader) (tree : Tree) {path : Text}
    (hpath : PathCheck.checkConfig tree path = .ok ()) :
    (checkConfig threshold reader tree path).2 =
      match Config.load reader tree path with
      | .ok _ => .success
      | .error (.config error) => invalidConfig error.message
      | .error (.breakdown cause) => .brokenOff cause := by
  unfold checkConfig
  rw [hpath]
  dsimp only
  cases Config.load reader tree path with
  | error error => cases error <;> rfl
  | ok config => rfl

end CommandLine

end HclTidy
