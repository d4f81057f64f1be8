import Mathlib.Tactic.Common

/-!
# Runs of a deterministic system

`step c s` is the state that call `c` leads to from `s`, and a run is the list of its
calls.  `Throughout` speaks about the states of a run and `EachCall` about its calls, each
in the state that it is made in.
-/

set_option autoImplicit false

namespace LakeOS.Library

variable {σ κ : Type*} (step : κ → σ → σ)

/-- The state after a run. -/
def after : List κ → σ → σ
  | [], s => s
  | c :: cs, s => after cs (step c s)

/-- `P` holds in every state of a run, from the first to the last. -/
def Throughout (P : σ → Prop) : List κ → σ → Prop
  | [], s => P s
  | c :: cs, s => P s ∧ Throughout P cs (step c s)

/-- `Q` holds of every call of a run. -/
def EachCall (Q : κ → σ → Prop) : List κ → σ → Prop
  | [], _ => True
  | c :: cs, s => Q c s ∧ EachCall Q cs (step c s)

instance decidableEachCall {Q : κ → σ → Prop} [∀ c s, Decidable (Q c s)] :
    ∀ (cs : List κ) (s : σ), Decidable (EachCall step Q cs s)
  | [], _ => inferInstanceAs (Decidable True)
  | c :: cs, s =>
      have : Decidable (EachCall step Q cs (step c s)) := decidableEachCall cs (step c s)
      inferInstanceAs (Decidable (Q c s ∧ EachCall step Q cs (step c s)))

variable {step} {I P : σ → Prop} {V Q : κ → σ → Prop}

theorem Throughout.first {cs : List κ} {s : σ} (h : Throughout step P cs s) : P s := by
  cases cs with
  | nil => exact h
  | cons c cs => exact h.1

theorem Throughout.last {cs : List κ} {s : σ} (h : Throughout step P cs s) :
    P (after step cs s) := by
  induction cs generalizing s with
  | nil => exact h
  | cons c cs ih => exact ih h.2

theorem eachCall_true (cs : List κ) (s : σ) : EachCall step (fun _ _ => True) cs s := by
  induction cs generalizing s with
  | nil => trivial
  | cons c cs ih => exact ⟨trivial, ih (step c s)⟩

theorem after_append (cs ds : List κ) (s : σ) :
    after step (cs ++ ds) s = after step ds (after step cs s) := by
  induction cs generalizing s with
  | nil => rfl
  | cons c cs ih => exact ih (step c s)

/-- The states of a run include those of its first part. -/
theorem Throughout.reached {cs ds : List κ} {s : σ} (h : Throughout step P (cs ++ ds) s) :
    P (after step cs s) := by
  induction cs generalizing s with
  | nil => exact h.first
  | cons c cs ih => exact ih h.2

/-- A call in the middle of a run is made in the state after its first part. -/
theorem EachCall.made {cs ds : List κ} {c : κ} {s : σ} (h : EachCall step Q (cs ++ c :: ds) s) :
    Q c (after step cs s) := by
  induction cs generalizing s with
  | nil => exact h.1
  | cons c' cs ih => exact ih h.2

/-- An invariant that valid calls keep holds throughout. -/
theorem throughout_of_invariant (hstep : ∀ c s, I s → V c s → I (step c s)) {cs : List κ}
    {s : σ} (hs : I s) (hvalid : EachCall step V cs s) : Throughout step I cs s := by
  induction cs generalizing s with
  | nil => exact hs
  | cons c cs ih => exact ⟨hs, ih (hstep c s hs hvalid.1) hvalid.2⟩

theorem throughout_and {cs : List κ} {s : σ} :
    Throughout step (fun s => I s ∧ P s) cs s ↔ Throughout step I cs s ∧ Throughout step P cs s := by
  induction cs generalizing s with
  | nil => exact Iff.rfl
  | cons c cs ih =>
      unfold Throughout
      rw [ih]
      tauto

/-- What holds of a valid call wherever `P` holds is true of the calls of a run. -/
theorem eachCall_of_throughout (hcall : ∀ c s, P s → V c s → Q c s) {cs : List κ} {s : σ}
    (hP : Throughout step P cs s) (hvalid : EachCall step V cs s) : EachCall step Q cs s := by
  induction cs generalizing s with
  | nil => trivial
  | cons c cs ih => exact ⟨hcall c s hP.1 hvalid.1, ih hP.2 hvalid.2⟩

/-- Two conditions on calls that agree wherever an invariant holds, which the second one keeps,
agree on runs. -/
theorem eachCall_congr_kept {Q' : κ → σ → Prop} (hstep : ∀ c s, I s → Q' c s → I (step c s))
    (hcall : ∀ c s, I s → (Q c s ↔ Q' c s)) {cs : List κ} {s : σ} (hs : I s) :
    EachCall step Q cs s ↔ EachCall step Q' cs s := by
  induction cs generalizing s with
  | nil => exact Iff.rfl
  | cons c cs ih =>
      unfold EachCall
      rw [hcall c s hs]
      exact and_congr_right fun hkept => ih (hstep c s hs hkept)

/-- So do conditions that agree on valid calls. -/
theorem eachCall_congr_valid {Q' : κ → σ → Prop} (hstep : ∀ c s, I s → V c s → I (step c s))
    (hcall : ∀ c s, I s → V c s → (Q c s ↔ Q' c s)) {cs : List κ} {s : σ} (hs : I s)
    (hvalid : EachCall step V cs s) : EachCall step Q cs s ↔ EachCall step Q' cs s := by
  induction cs generalizing s with
  | nil => exact Iff.rfl
  | cons c cs ih =>
      exact and_congr (hcall c s hs hvalid.1) (ih (hstep c s hs hvalid.1) hvalid.2)

/-- Where `Q` says exactly when a valid call keeps `P`, it says so for whole runs. -/
theorem throughout_iff_eachCall (hstep : ∀ c s, I s → V c s → I (step c s))
    (hkeeps : ∀ c s, I s → V c s → P s → (P (step c s) ↔ Q c s)) {cs : List κ} {s : σ}
    (hs : I s) (hP : P s) (hvalid : EachCall step V cs s) :
    Throughout step P cs s ↔ EachCall step Q cs s := by
  induction cs generalizing s with
  | nil => exact ⟨fun _ => trivial, fun _ => hP⟩
  | cons c cs ih =>
      have hnext := hkeeps c s hs hvalid.1 hP
      constructor
      · rintro ⟨-, hrest⟩
        have hP' := hrest.first
        exact ⟨hnext.mp hP', (ih (hstep c s hs hvalid.1) hP' hvalid.2).mp hrest⟩
      · rintro ⟨hQ, hrest⟩
        have hP' := hnext.mpr hQ
        exact ⟨hP, (ih (hstep c s hs hvalid.1) hP' hvalid.2).mpr hrest⟩

end LakeOS.Library
