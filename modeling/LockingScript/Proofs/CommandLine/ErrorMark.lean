import LockingScript.Proofs.CommandLine.Options
import LockingScript.Proofs.CommandLine.Report

/-!
# The error mark and the exit status

A script that breaks off is met twice in a run: the printed words end in the error mark, and the
run fails after them. Both say the same as long as the words are those of the version that is asked
for. The one-line form knows version 0 only. So it marks an error in a script of another version,
of which no push is read when the run decides whether it fails.
-/

namespace LockingScript.CommandLine

namespace Outcome

/-- Whether the first printed line ends in the error mark. -/
def MarksError (x : Outcome) : Prop :=
  ∃ first ∈ (lines x.output).head?, "[error]".toList <:+ first.toList

/-- Whether the run failed because the script could not be read. -/
def FailsToParse (x : Outcome) : Prop :=
  x.status = 1 ∧ "Error: script does not parse\n".toList <+: x.errors.toList

instance (x : Outcome) : Decidable x.MarksError :=
  inferInstanceAs (Decidable (∃ first ∈ _, _))

instance (x : Outcome) : Decidable x.FailsToParse := inferInstanceAs (Decidable (_ ∧ _))

end Outcome

namespace Options

/-- The version that the words are printed for. -/
def shownVersion (o : Options) : UInt16 := if o.oneLine then 0 else o.version

/-- Whether the script breaks off in the words that are printed, and only there. -/
def Misreads (o : Options) (script : Bytes) : Prop :=
  o.oneLine = true ∧ o.version ≠ 0 ∧ ∃ fault, tokenize 0 script = .error fault

variable {o : Options} {script : Bytes}

theorem Misreads.tokenize_eq (misread : o.Misreads script) : tokenize o.version script = .ok [] :=
  tokenize_of_unsupported misread.2.1

/-- What is printed breaks off if the script does, or if it is misread. -/
theorem exists_shown_fault_iff :
    (∃ fault, tokenize o.shownVersion script = .error fault) ↔
      (∃ fault, tokenize o.version script = .error fault) ∨ o.Misreads script := by
  unfold shownVersion
  split
  · rename_i oneLine
    constructor
    · rintro ⟨fault, malformed⟩
      by_cases supported : o.version = 0
      · exact .inl ⟨fault, supported ▸ malformed⟩
      · exact .inr ⟨oneLine, supported, fault, malformed⟩
    · rintro (⟨fault, malformed⟩ | misread)
      · exact ⟨fault, version_of_malformed malformed ▸ malformed⟩
      · exact misread.2.2
  · rename_i severalLines
    refine ⟨.inl, ?_⟩
    rintro (malformed | misread)
    · exact malformed
    · exact absurd misread.1 severalLines

end Options

theorem errorMark_suffix_rendering_iff {o : Options} {script : Bytes} :
    "[error]".toList <:+ (rendering o script).toList ↔
      ∃ fault, tokenize o.shownVersion script = .error fault := by
  unfold rendering Options.shownVersion
  split
  · exact errorMark_suffix_oneLine_iff_malformed
  · exact errorMark_suffix_shortForm_iff_malformed o.style

section Inspect

variable {o : Options} {text : String} {script : Bytes}

theorem head?_lines_inspect (decoded : Hex.decode (Text.trim text.toList) = .ok script) :
    (lines (inspect o text).output).head? = some (rendering o script) := by
  cases parses : checkParses o.version script with
  | error fault =>
      rw [lines_inspect_of_malformed decoded parses]
      rfl
  | ok done =>
      obtain ⟨_, _, _, _, _, printed⟩ := inspect_of_parses decoded parses
      rw [printed]
      rfl

theorem marksError_inspect_iff (decoded : Hex.decode (Text.trim text.toList) = .ok script) :
    (inspect o text).MarksError ↔ ∃ fault, tokenize o.shownVersion script = .error fault := by
  rw [← errorMark_suffix_rendering_iff, Outcome.MarksError, head?_lines_inspect decoded]
  simp

theorem status_inspect_of_tokenize {tokens : List Token}
    (decoded : Hex.decode (Text.trim text.toList) = .ok script)
    (tokenized : tokenize o.version script = .ok tokens) : (inspect o text).status = 0 :=
  status_inspect_eq_zero_iff.mpr ⟨script, decoded, checkParses_eq_ok_iff.mpr ⟨tokens, tokenized⟩⟩

theorem failsToParse_inspect_iff (decoded : Hex.decode (Text.trim text.toList) = .ok script) :
    (inspect o text).FailsToParse ↔ ∃ fault, tokenize o.version script = .error fault := by
  cases tokenized : tokenize o.version script with
  | error fault =>
      rw [inspect_of_malformed decoded (checkParses_eq_error_iff.mpr tokenized)]
      refine iff_of_true ⟨rfl, ?_⟩ ⟨fault, rfl⟩
      refine ⟨("\nCaused by:\n    " ++ (Error.malformedPush fault).message ++ "\n").toList, ?_⟩
      simp [Outcome.failure]
  | ok tokens =>
      refine iff_of_false ?_ (by simp)
      rintro ⟨failed, -⟩
      rw [status_inspect_of_tokenize decoded tokenized] at failed
      cases failed

end Inspect

/-- Every script can be given with any options. The printed words end in the error mark exactly if
the run fails on the script, except that the one-line form also marks scripts of other versions that
would break off in version 0. Runs on those succeed. -/
theorem errorMark_agrees {o : Options} {text : String} {script : Bytes}
    (decoded : Hex.decode (Text.trim text.toList) = .ok script) :
    (∃ arguments, Command.ofArguments arguments = .ok (.inspect o text)) ∧
      ∀ arguments, Command.ofArguments arguments = .ok (.inspect o text) →
        (¬ o.Misreads script → ((run arguments).MarksError ↔ (run arguments).FailsToParse)) ∧
        (o.Misreads script → (run arguments).MarksError ∧ (run arguments).status = 0) := by
  refine ⟨⟨_, Command.ofArguments_arguments o text⟩, ?_⟩
  intro arguments accepted
  rw [run_of_accepted accepted, marksError_inspect_iff decoded, failsToParse_inspect_iff decoded,
    Options.exists_shown_fault_iff]
  refine ⟨fun readAsAsked => or_iff_left readAsAsked, ?_⟩
  exact fun misread => ⟨.inr misread, status_inspect_of_tokenize decoded misread.tokenize_eq⟩

/-- With `brokenOff` in one line, the mark comes with a failure in version 0 and without one in
version 1. -/
theorem errorMark_agrees_brokenOff :
    Hex.decode (Text.trim "76a9025d".toList) = .ok brokenOff ∧
      ¬ Options.Misreads ⟨.full, 0, .withoutTreasury, true⟩ brokenOff ∧
      (run ["--oneline", "76a9025d"]).MarksError ∧
      (run ["--oneline", "76a9025d"]).FailsToParse ∧
      Options.Misreads ⟨.full, 1, .withoutTreasury, true⟩ brokenOff ∧
      (run ["--oneline", "--script-version", "1", "76a9025d"]).MarksError ∧
      (run ["--oneline", "--script-version", "1", "76a9025d"]).status = 0 := by
  obtain ⟨decoded, malformed, fails⟩ :
      Hex.decode (Text.trim "76a9025d".toList) = .ok brokenOff ∧
        tokenize 0 brokenOff = .error ⟨.data 2, .direct, 2, 1⟩ ∧
        (run ["--oneline", "76a9025d"]).FailsToParse := by
    decide +kernel
  have readAsAsked : ¬ Options.Misreads ⟨.full, 0, .withoutTreasury, true⟩ brokenOff :=
    fun misread => misread.2.1 rfl
  have misread : Options.Misreads ⟨.full, 1, .withoutTreasury, true⟩ brokenOff :=
    ⟨rfl, by decide, _, malformed⟩
  obtain ⟨-, inZero⟩ := errorMark_agrees (o := ⟨.full, 0, .withoutTreasury, true⟩) decoded
  obtain ⟨-, inOne⟩ := errorMark_agrees (o := ⟨.full, 1, .withoutTreasury, true⟩) decoded
  have agree := (inZero ["--oneline", "76a9025d"] (by decide +kernel)).1 readAsAsked
  have marked := (inOne ["--oneline", "--script-version", "1", "76a9025d"] (by decide +kernel)).2
    misread
  exact ⟨decoded, readAsAsked, agree.mpr fails, fails, misread, marked⟩

/-- The mark alone does not tell whether the run fails. -/
theorem errorMark_without_failure :
    ¬ ∀ (arguments : List String) (o : Options) (text : String) (script : Bytes),
      Command.ofArguments arguments = .ok (.inspect o text) →
        Hex.decode (Text.trim text.toList) = .ok script →
          ((run arguments).MarksError ↔ (run arguments).FailsToParse) := by
  intro agree
  have agreeHere := agree ["--oneline", "--script-version", "1", "76a9025d"]
    ⟨.full, 1, .withoutTreasury, true⟩ "76a9025d" brokenOff (by decide +kernel) (by decide +kernel)
  revert agreeHere
  decide +kernel

end LockingScript.CommandLine
