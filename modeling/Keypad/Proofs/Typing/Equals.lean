/-
Module: Keypad.Proofs.Typing.Equals
Layer: proofs
Purpose: Evaluating what an evaluation has left on display.
Trusted boundary: none
Main exports:
  parse_shown, evaluate_shown, Session.equals_of_ok, Session.equals_of_error,
  equals_settles
-/
import Keypad.Proofs.Formula.Chaining
import Keypad.Proofs.Typing.Candidate

namespace Keypad

/-! ### Results read back -/

namespace Binary64

/-- The zero below zero is the one double that another one is on display for. -/
theorem displayed_eq (value : Binary64) :
    value.displayed = if value = zero true then zero false else value := by
  unfold displayed
  by_cases isZero : value.isZero = true
  · obtain ⟨negative, rfl⟩ := eq_zero_of_isZero isZero
    cases negative <;> rfl
  · have other : value ≠ zero true := by
      rintro rfl
      exact isZero rfl
    rw [if_neg isZero, if_neg other]

/-- What is on display is shown as it is. -/
theorem shown_displayed (value : Binary64) : value.displayed.shown = value.shown := by
  unfold displayed
  by_cases isZero : value.isZero = true
  · rw [if_pos isZero, shown, shown, if_pos isZero]
    rfl
  · rw [if_neg isZero]

theorem shown_ne_nil {value : Binary64} (finite : value.isFinite = true) :
    value.shown ≠ [] := by
  rcases shown_cases finite with ⟨rank, _, plain⟩ | ⟨rank, _, _, signed⟩
  · obtain ⟨_, _, literal, _⟩ := magnitudeText_literal rank
    rw [plain]
    exact literal.ne_nil
  · rw [signed]
    exact List.cons_ne_nil _ _

end Binary64

/-- The text of a finite double is evaluated to the double on display. -/
theorem evaluate_shown {value : Binary64} (finite : value.isFinite = true) :
    evaluate value.shown = .ok value.displayed := by
  obtain ⟨tokens, tree, spells, derives, treeValue, height⟩ := shown_spells finite
  have low : tree.height ≤ depthLimit := by
    rcases height with one | ⟨two, _⟩
    · rw [one]
      decide
    · rw [two]
      decide
  have parsed : parse tokens = .ok tree := by
    rw [parse_of_derives (.sum (.product derives)), if_pos ⟨low, low⟩]
  have displayedFinite : value.displayed.isFinite = true :=
    value.displayed_same.isFinite_eq.symm.trans finite
  rw [evaluate_of_spells spells parsed, treeValue, ok_bind, if_pos displayedFinite]

/-! ### Evaluating once and again -/

/-- Of the texts that keys bring about, only the empty one is blank. -/
theorem Typeable.isBlank_iff {text : Text} (typeable : Typeable text) :
    text.isBlank = true ↔ text = [] := by
  constructor
  · intro blank
    cases text with
    | nil => rfl
    | cons c text =>
        have first : isBlank c = true := List.all_eq_true.mp blank c List.mem_cons_self
        cases first.symm.trans (typeable.significant c List.mem_cons_self)
  · rintro rfl
    rfl

/-- The text of a finite result is not blank. -/
theorem shown_not_isBlank {value : Binary64} (finite : value.isFinite = true) :
    value.shown.isBlank = false := by
  by_contra blank
  apply Binary64.shown_ne_nil finite
  exact (Typeable.shown finite).isBlank_iff.mp (Bool.not_eq_false _ ▸ blank)

namespace Session

/-- There is nothing to evaluate in a blank text. -/
theorem equals_of_isBlank {session : Session} (blank : session.candidate.isBlank = true) :
    session.equals = (none, session) := if_pos blank

/-- A value takes the place of the text. -/
theorem equals_of_ok {session : Session} {value : Binary64}
    (significant : session.candidate.isBlank = false)
    (evaluated : evaluate session.candidate = .ok value) :
    session.equals =
      (some (.ok ⟨session.candidate, value.shown, value⟩), ⟨value.shown, none⟩) := by
  simp [equals, significant, evaluated]

/-- A failure is kept beside the text. -/
theorem equals_of_error {session : Session} {failure : Failure}
    (significant : session.candidate.isBlank = false)
    (evaluated : evaluate session.candidate = .error failure) :
    session.equals = (some (.error failure), ⟨session.candidate, some failure⟩) := by
  simp [equals, significant, evaluated]

/-- The result of an evaluation evaluates to itself: the text stays, and its value is
the double on display. -/
theorem equals_shown {value : Binary64} (finite : value.isFinite = true)
    (failure : Option Failure) :
    (Session.mk value.shown failure).equals =
      (some (.ok ⟨value.shown, value.shown, value.displayed⟩), ⟨value.shown, none⟩) := by
  rw [equals_of_ok (shown_not_isBlank finite) (evaluate_shown finite), value.shown_displayed]

/-- The two ways in which evaluating a text that is not blank can end. -/
theorem equals_cases {session : Session} (significant : session.candidate.isBlank = false) :
    (∃ value : Binary64, value.isFinite = true ∧ session.equals =
      (some (.ok ⟨session.candidate, value.shown, value⟩), ⟨value.shown, none⟩)) ∨
    ∃ failure, evaluate session.candidate = .error failure ∧ session.equals =
      (some (.error failure), ⟨session.candidate, some failure⟩) := by
  cases evaluated : evaluate session.candidate with
  | ok value =>
      obtain ⟨_, _, _, _, _, finite⟩ := formula_of_evaluate evaluated
      exact .inl ⟨value, finite, equals_of_ok significant evaluated⟩
  | error failure => exact .inr ⟨failure, rfl, equals_of_error significant evaluated⟩

end Session

/-- The text of every finite double is evaluated to the same double, but for the zero
below zero, which is shown as the other one.  So evaluating a session again leaves it as
the first evaluation did: a result is the result of itself, with the same number for its
value, a failure is the same again, and nothing at all happens while there is no text. -/
theorem equals_settles :
    (∀ value : Binary64, value.isFinite = true →
      evaluate value.shown =
        .ok (if value = .zero true then .zero false else value)) ∧
    ∀ session : Session, session.Reachable →
      session.equals.2.equals.2 = session.equals.2 ∧
      (∀ calculation, session.equals.1 = some (.ok calculation) →
        ∃ value, session.equals.2.equals.1 =
            some (.ok ⟨session.equals.2.candidate, session.equals.2.candidate, value⟩) ∧
          calculation.value.SameNumber value) ∧
      (∀ failure, session.equals.1 = some (.error failure) →
        session.equals.2.equals.1 = some (.error failure)) ∧
      (session.equals.1 = none ↔ session.candidate = []) ∧
      (session.candidate = [] →
        session.equals = (none, session) ∧ session.equals.2.equals = (none, session)) := by
  refine ⟨fun value finite => ?_, fun session reachable => ?_⟩
  · rw [evaluate_shown finite, value.displayed_eq]
  have isBlank_iff := reachable.typeable.isBlank_iff
  cases blank : session.candidate.isBlank with
  | true =>
      have nothing := Session.equals_of_isBlank blank
      have empty := isBlank_iff.mp blank
      simp [nothing, empty]
  | false =>
      have notEmpty : session.candidate ≠ [] := by
        intro empty
        cases blank.symm.trans (isBlank_iff.mpr empty)
      rcases Session.equals_cases blank with ⟨value, finite, first⟩ | ⟨failure, failed, first⟩
      · have second := Session.equals_shown finite none
        simp only [first, second]
        refine ⟨trivial, ?_, nofun, ?_, fun empty => absurd empty notEmpty⟩
        · rintro calculation same
          cases same
          exact ⟨value.displayed, rfl, value.displayed_same⟩
        · simp [notEmpty]
      · have second : (Session.mk session.candidate (some failure)).equals =
            (some (.error failure), ⟨session.candidate, some failure⟩) :=
          Session.equals_of_error blank failed
        simp only [first, second]
        refine ⟨trivial, nofun, ?_, ?_, fun empty => absurd empty notEmpty⟩
        · rintro other same
          cases same
          rfl
        · simp [notEmpty]

/-- The value of `-0` is the zero below zero.  It is shown as the other one, which is what
a second evaluation gives. -/
theorem equals_settles_zero :
    Session.Reachable ⟨"-0".toList, none⟩ ∧
      Session.equals ⟨"-0".toList, none⟩ =
        (some (.ok ⟨"-0".toList, "0".toList, .zero true⟩), ⟨"0".toList, none⟩) ∧
      (∃ value, (Session.equals ⟨"0".toList, none⟩).1 =
          some (.ok ⟨"0".toList, "0".toList, value⟩) ∧
        (Binary64.zero true).SameNumber value) ∧
      (Session.equals ⟨"0".toList, none⟩).2 = ⟨"0".toList, none⟩ := by
  have reachable : Session.Reachable ⟨"-0".toList, none⟩ :=
    ⟨[.type '-', .type '0'], by decide +kernel⟩
  have first : Session.equals ⟨"-0".toList, none⟩ =
      (some (.ok ⟨"-0".toList, "0".toList, .zero true⟩), ⟨"0".toList, none⟩) := by
    decide +kernel
  obtain ⟨same, again, _⟩ := equals_settles.2 _ reachable
  rw [first] at same again
  exact ⟨reachable, first, again _ rfl, same⟩

end Keypad
