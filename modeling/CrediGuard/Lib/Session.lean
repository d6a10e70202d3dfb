import CrediGuard.Lib.Statement

/-!
The life of a call: a body inside a transaction that commits what the body
returns and rolls back what it raises.

`advance` moves a call by one statement, so that calls can be interleaved;
`alone` is a whole call that nobody interferes with.
-/

namespace Session
open Statement
variable {ω ε φ α : Type}

inductive Progress (φ α ε : Type) where
  | running (phase : φ)
  | committing (response : α)
  | aborting (error : ε)
  | returned (response : α)
  | raised (error : ε)
  deriving DecidableEq

namespace Progress

def after : φ ⊕ α → Progress φ α ε
  | .inl p => .running p
  | .inr response => .committing response

@[simp] theorem after_inl (p : φ) : (after (.inl p) : Progress φ α ε) = .running p := rfl

@[simp] theorem after_inr (a : α) : (after (.inr a) : Progress φ α ε) = .committing a := rfl

/-- An await of a call that is still open raises `e`. -/
def fail (e : ε) : Progress φ α ε → Option (Progress φ α ε)
  | .running _ => some (.aborting e)
  | .committing _ => some (.aborting e)
  | _ => none

end Progress

/-- A body and the two ends of the transaction around it. -/
structure Transaction (ω ε φ α : Type) where
  resume : φ → Stmt ω ε (φ ⊕ α)
  commit : ω → ω
  rollback : ω → ω

variable (x : Transaction ω ε φ α)

def advance (w : ω) : Progress φ α ε → Option (Progress φ α ε × ω)
  | .running p =>
      match x.resume p w with
      | .waits => none
      | .raises e w' => some (.aborting e, w')
      | .returns next w' => some (.after next, w')
  | .committing a => some (.returned a, x.commit w)
  | .aborting e => some (.raised e, x.rollback w)
  | .returned _ => none
  | .raised _ => none

/-- What a move of a call can be. -/
inductive Advance (w : ω) : Progress φ α ε → Progress φ α ε → ω → Prop
  | next (p : φ) (q : φ ⊕ α) (w' : ω) (h : x.resume p w = .returns q w') :
      Advance w (.running p) (.after q) w'
  | raises (p : φ) (e : ε) (w' : ω) (h : x.resume p w = .raises e w') :
      Advance w (.running p) (.aborting e) w'
  | commits (a : α) : Advance w (.committing a) (.returned a) (x.commit w)
  | rollsBack (e : ε) : Advance w (.aborting e) (.raised e) (x.rollback w)

variable {x}

theorem advance_cases {w w' : ω} {p p' : Progress φ α ε}
    (h : advance x w p = some (p', w')) : Advance x w p p' w' := by
  cases p with
  | running p =>
      simp only [advance] at h
      cases hx : x.resume p w with
      | waits => simp [hx] at h
      | raises e w₁ =>
          simp only [hx, Option.some.injEq, Prod.mk.injEq] at h
          obtain ⟨rfl, rfl⟩ := h
          exact .raises p e w₁ hx
      | returns q w₁ =>
          simp only [hx, Option.some.injEq, Prod.mk.injEq] at h
          obtain ⟨rfl, rfl⟩ := h
          exact .next p q w₁ hx
  | committing a =>
      simp only [advance, Option.some.injEq, Prod.mk.injEq] at h
      obtain ⟨rfl, rfl⟩ := h
      exact .commits a
  | aborting e =>
      simp only [advance, Option.some.injEq, Prod.mk.injEq] at h
      obtain ⟨rfl, rfl⟩ := h
      exact .rollsBack e
  | returned a => simp [advance] at h
  | raised e => simp [advance] at h

theorem fail_cases {e : ε} {p p' : Progress φ α ε} (h : p.fail e = some p') :
    p' = .aborting e ∧ ((∃ q, p = .running q) ∨ ∃ a, p = .committing a) := by
  cases p with
  | running q => exact ⟨(Option.some.inj h).symm, .inl ⟨q, rfl⟩⟩
  | committing a => exact ⟨(Option.some.inj h).symm, .inr ⟨a, rfl⟩⟩
  | aborting e => contradiction
  | returned a => contradiction
  | raised e => contradiction

/-- A call without interference; its commit fails with `commitError`, if given. -/
def alone (commit rollback : ω → ω) (commitError : Option ε) (body : Stmt ω ε α) (w : ω) :
    Option (Except ε α × ω) :=
  match body w with
  | .waits => none
  | .raises e w' => some (.error e, rollback w')
  | .returns a w' =>
      match commitError with
      | none => some (.ok a, commit w')
      | some e => some (.error e, rollback w')

theorem alone_isSome {commit rollback : ω → ω} {commitError : Option ε} {body : Stmt ω ε α}
    {Q : α → ω → Prop} {w : ω} (hbody : Stmt.Settles body w Q) :
    (alone commit rollback commitError body w).isSome := by
  simp only [alone]
  cases hx : body w with
  | waits => simp only [Stmt.Settles, hx] at hbody
  | raises e v => rfl
  | returns a v => cases commitError <;> rfl

/-- A call of its own either leaves the state as it was or commits what its body ensures. -/
theorem alone_cases {commit rollback : ω → ω} {commitError : Option ε} {body : Stmt ω ε α}
    {Q : α → ω → Prop} {w w' : ω} {result : Except ε α}
    (hbody : Stmt.Ensures body w (fun a w' => rollback w' = w ∧ Q a w')
      (fun _ w' => rollback w' = w))
    (h : alone commit rollback commitError body w = some (result, w')) :
    (∃ e, result = .error e ∧ w' = w) ∨ ∃ a v, result = .ok a ∧ Q a v ∧ w' = commit v := by
  simp only [alone] at h
  cases hx : body w with
  | waits => simp [hx] at h
  | raises e v =>
      simp only [hx, Option.some.injEq, Prod.mk.injEq] at h
      obtain ⟨rfl, rfl⟩ := h
      exact .inl ⟨e, rfl, hbody.of_raises hx⟩
  | returns a v =>
      obtain ⟨hrollback, hQ⟩ := hbody.of_returns hx
      cases commitError with
      | none =>
          simp only [hx, Option.some.injEq, Prod.mk.injEq] at h
          obtain ⟨rfl, rfl⟩ := h
          exact .inr ⟨a, v, rfl, hQ, rfl⟩
      | some e =>
          simp only [hx, Option.some.injEq, Prod.mk.injEq] at h
          obtain ⟨rfl, rfl⟩ := h
          exact .inl ⟨e, rfl, hrollback⟩

end Session
