import LockingScript.Proofs.Text.Writing
import LockingScript.Proofs.Token.Shape
import LockingScript.Script.Basic

/-!
# The units of the one-line form

On one line a token is shown as one unit, and units are found again between single blanks. A push
with a length prefix and no data is the exception: its unit is empty, so there is nothing between
its blanks, and not even these if no text comes before it.
-/

namespace LockingScript

theorem Hex.encode_eq_empty_iff {b : Bytes} : Hex.encode b = "" ↔ b = [] := by
  rw [← String.toList_eq_nil_iff, Hex.toList_encode]
  cases b with
  | nil => simp
  | cons x rest => simp

namespace Token

/-- Whether the token has nothing to show on one line: a length prefix, but no data. -/
def IsInvisible (t : Token) : Prop := t.opcode.IsCounted ∧ t.data = []

instance (t : Token) : Decidable t.IsInvisible := inferInstanceAs (Decidable (_ ∧ _))

theorem unit_constant {op : Opcode} {n : Int} (number : op.constant? = some n) (data : Bytes) :
    (Token.mk op data).unit = toString n := by
  simp only [unit, number]

theorem unit_push {op : Opcode} (noConstant : op.constant? = none) (push : op.IsPush)
    (data : Bytes) : (Token.mk op data).unit = Hex.encode data := by
  simp only [unit, noConstant, if_pos push]

theorem unit_plain {op : Opcode} (noConstant : op.constant? = none) (noPush : ¬ op.IsPush)
    (data : Bytes) : (Token.mk op data).unit = op.name := by
  simp only [unit, noConstant, if_neg noPush]

theorem unit_eq_empty_iff {t : Token} (wellFormed : t.WellFormed) :
    t.unit = "" ↔ t.IsInvisible := by
  cases shape wellFormed with
  | @constant op n number =>
      rw [unit_constant number]
      refine iff_of_false ?_ fun invisible => ?_
      · intro empty
        have bare := Opcode.isBareWord_constant? number
        rw [empty] at bare
        exact bare.1 rfl
      · rw [invisible.1.constant?] at number
        cases number
  | @direct data holds short =>
      have pos : 0 < data.length := List.length_pos_iff.mpr holds
      rw [unit_push (Opcode.constant?_data short pos) (Opcode.isPush_data short),
        Hex.encode_eq_empty_iff]
      exact iff_of_false holds fun invisible => holds invisible.2
  | counted isCounted =>
      rw [unit_push isCounted.constant? isCounted.isPush, Hex.encode_eq_empty_iff]
      exact (and_iff_right isCounted).symm
  | plain noConstant noPush =>
      rw [unit_plain noConstant noPush]
      refine iff_of_false ?_ fun invisible => noPush invisible.1.isPush
      simp [Opcode.name, String.append_eq_empty_iff]

end Token

namespace Reading

/-- The units of the tokens, and the mark for what could not be read. -/
def units (r : Reading) : List String := r.tokens.map Token.unit ++ r.errorWords

theorem oneLine_eq_written (r : Reading) : r.oneLine = Text.written r.units :=
  (Text.written_eq r.units).symm

theorem blank_not_mem_of_mem_units {r : Reading} : ∀ unit ∈ r.units, ' ' ∉ unit.toList := by
  refine forall_mem_append_errorWords ?_ (by decide)
  intro unit listed
  obtain ⟨t, -, rfl⟩ := List.mem_map.mp listed
  exact t.isBare_unit.blank_not_mem (by decide)

/-- All units are found again but those that are empty and have no text in front of them. -/
theorem pieces_oneLine (r : Reading) :
    Text.pieces r.oneLine = r.units.dropWhile String.isEmpty := by
  rw [oneLine_eq_written, Text.pieces_written blank_not_mem_of_mem_units]

theorem ne_empty_of_mem_units {r : Reading} (wellFormed : ∀ t ∈ r.tokens, t.WellFormed)
    (visible : ∀ t ∈ r.tokens, ¬ t.IsInvisible) : ∀ unit ∈ r.units, unit ≠ "" := by
  refine forall_mem_append_errorWords ?_ (by decide)
  intro unit listed
  obtain ⟨t, membership, rfl⟩ := List.mem_map.mp listed
  rw [ne_eq, Token.unit_eq_empty_iff (wellFormed t membership)]
  exact visible t membership

theorem errorWords_ofBytes (script : Bytes) :
    (ofBytes script).errorWords =
      if (tokenize 0 script).isOk then [] else ["[error]"] := by
  cases outcome : tokenize 0 script with
  | ok tokens =>
      rw [ofBytes_of_tokenize outcome]
      rfl
  | error fault =>
      have stopped := tokenize_eq_error_iff.mp outcome
      exact errorWords_of_fault stopped

end Reading

namespace Script

/-- The text on one line has one piece for each token, none of them empty, and then the mark if the
script cannot be read to its end. Only the empty script has no text. -/
def ShowsEachToken (s : Script) : Prop :=
  ∃ shown : List String, shown.length = s.reading.tokens.length ∧ (∀ unit ∈ shown, unit ≠ "") ∧
    Text.pieces s.oneLine = shown ++ (if (tokenize 0 s.bytes).isOk then [] else ["[error]"]) ∧
    (s.oneLine = "" ↔ s.bytes = [])

variable {s : Script}

theorem wellFormed_of_mem_reading : ∀ t ∈ s.reading.tokens, t.WellFormed :=
  fun _ => Reading.wellFormed_of_mem_tokens

theorem oneLine_eq_empty_iff (visible : ∀ t ∈ s.reading.tokens, ¬ t.IsInvisible) :
    s.oneLine = "" ↔ s.bytes = [] := by
  have seen := Reading.ne_empty_of_mem_units wellFormed_of_mem_reading visible
  rw [oneLine, Reading.oneLine_eq_written, Text.written_eq_empty_iff seen, Reading.units,
    List.append_eq_nil_iff, List.map_eq_nil_iff, reading, Reading.nothing_to_show_iff]

theorem showsEachToken_of_visible (visible : ∀ t ∈ s.reading.tokens, ¬ t.IsInvisible) :
    s.ShowsEachToken := by
  have seen := Reading.ne_empty_of_mem_units wellFormed_of_mem_reading visible
  refine ⟨s.reading.tokens.map Token.unit, List.length_map _, ?_, ?_, oneLine_eq_empty_iff visible⟩
  · exact fun unit listed => seen unit (List.mem_append_left _ listed)
  · rw [oneLine, Reading.pieces_oneLine, Text.dropWhile_isEmpty_of_seen seen, Reading.units,
      reading, Reading.errorWords_ofBytes]

theorem visible_of_showsEachToken (shows : s.ShowsEachToken) :
    ∀ t ∈ s.reading.tokens, ¬ t.IsInvisible := by
  obtain ⟨shown, length, seen, pieces, -⟩ := shows
  rw [← Reading.errorWords_ofBytes, oneLine, Reading.pieces_oneLine] at pieces
  -- There are as many pieces as units, so none was dropped.
  have all : s.reading.units.dropWhile String.isEmpty = s.reading.units := by
    apply (List.dropWhile_suffix _).eq_of_length
    rw [pieces, Reading.units, List.length_append, List.length_append, List.length_map, length]
    rfl
  have same : s.reading.tokens.map Token.unit = shown :=
    List.append_cancel_right (all.symm.trans pieces)
  intro t membership invisible
  have listed : t.unit ∈ shown := same ▸ List.mem_map_of_mem membership
  apply seen t.unit listed
  exact (Token.unit_eq_empty_iff (wellFormed_of_mem_reading t membership)).mpr invisible

/-- The pieces of the text on one line are the units of the tokens in the order of the script, and
the mark if reading stopped, but for empty units at the start. The units that are empty are those
of pushes with a length prefix and no data, so a script without such pushes shows each of its
tokens, and no other script does. -/
theorem oneLine_pieces (s : Script) :
    Text.pieces s.oneLine =
      (s.reading.tokens.map Token.unit ++
        (if (tokenize 0 s.bytes).isOk then [] else ["[error]"])).dropWhile String.isEmpty ∧
    (∀ t ∈ s.reading.tokens, t.unit = "" ↔ t.IsInvisible) ∧
    (s.ShowsEachToken ↔ ∀ t ∈ s.reading.tokens, ¬ t.IsInvisible) := by
  refine ⟨?_, ?_, visible_of_showsEachToken, showsEachToken_of_visible⟩
  · rw [← Reading.errorWords_ofBytes]
    exact s.reading.pieces_oneLine
  · intro t membership
    exact Token.unit_eq_empty_iff (wellFormed_of_mem_reading t membership)

/-- An opcode, a push without data, the same opcode and a push that is cut short: the text shows
that there is a token between the two opcodes, but not which. Without the push each token is
shown. -/
theorem oneLine_pieces_emptyPush :
    Text.pieces (Script.mk [0x76, 0x4c, 0x00, 0x76, 0x02, 0x5d]).oneLine =
        ["OP_DUP", "", "OP_DUP", "[error]"] ∧
      ¬ (Script.mk [0x76, 0x4c, 0x00, 0x76, 0x02, 0x5d]).ShowsEachToken ∧
      (∀ t ∈ (Script.mk [0x76, 0x76, 0x02, 0x5d]).reading.tokens, ¬ t.IsInvisible) ∧
      (Script.mk [0x76, 0x76, 0x02, 0x5d]).ShowsEachToken := by
  obtain ⟨pieces, -, shows⟩ := oneLine_pieces ⟨[0x76, 0x4c, 0x00, 0x76, 0x02, 0x5d]⟩
  have visible : ∀ t ∈ (Script.mk [0x76, 0x76, 0x02, 0x5d]).reading.tokens, ¬ t.IsInvisible := by
    decide +kernel
  refine ⟨pieces.trans (by decide +kernel), fun all => ?_, visible,
    (oneLine_pieces _).2.2.mpr visible⟩
  exact shows.mp all ⟨.pushData1, []⟩ (by decide +kernel) (by decide)

/-- A push without data in front of an opcode is not shown at all. -/
theorem not_showsEachToken : ¬ ∀ s : Script, s.ShowsEachToken := by
  intro every
  obtain ⟨shown, length, -, pieces, -⟩ := every ⟨[0x4c, 0x00, 0x76]⟩
  have whole : (tokenize 0 [0x4c, 0x00, 0x76]).isOk = true := by decide +kernel
  have two : (Script.mk [0x4c, 0x00, 0x76]).reading.tokens.length = 2 := by decide +kernel
  have one : Text.pieces (Script.mk [0x4c, 0x00, 0x76]).oneLine = ["OP_DUP"] := by decide +kernel
  rw [if_pos whole, one, List.append_nil] at pieces
  rw [two, ← pieces] at length
  cases length

end Script

end LockingScript
