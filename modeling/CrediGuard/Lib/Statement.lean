/-!
Effectful bodies over a shared state.

A statement waits (a lock it needs is held), raises, or returns; in the last two
cases it leaves a state behind. An asynchronous body is a sequence of statements
between which other parties run: it is given by `resume`, one atomic statement
per phase, and `iterate` runs it without interference.
-/

namespace Statement
variable {ω ε α β : Type}

inductive Outcome (ω ε α : Type) where
  | waits
  | raises (error : ε) (state : ω)
  | returns (value : α) (state : ω)

def Outcome.ofExcept : Except ε α → ω → Outcome ω ε α
  | .error e, w => .raises e w
  | .ok a, w => .returns a w

/-- What a statement that does not wait has raised or returned. -/
def Outcome.result? : Outcome ω ε α → Option (Except ε α)
  | .waits => none
  | .raises e _ => some (.error e)
  | .returns a _ => some (.ok a)

end Statement

open Statement in
def Stmt (ω ε α : Type) := ω → Outcome ω ε α

namespace Stmt
open Statement
variable {ω ε α β : Type}

instance : Monad (Stmt ω ε) where
  pure a := fun w => .returns a w
  bind x f := fun w =>
    match x w with
    | .waits => .waits
    | .raises e w' => .raises e w'
    | .returns a w' => f a w'

def raise (e : ε) : Stmt ω ε α := fun w => .raises e w

def read (f : ω → α) : Stmt ω ε α := fun w => .returns (f w) w

def modify (f : ω → ω) : Stmt ω ε Unit := fun w => .returns () (f w)

def ofExcept (x : Except ε α) : Stmt ω ε α := fun w => .ofExcept x w

/-- A call of a method that mutates an object, by a body over another state; the value
is the object it leaves behind. -/
def on {σ : Type} (x : Stmt σ ε Unit) (object : σ) : Stmt ω ε σ := fun w =>
  match x object with
  | .waits => .waits
  | .raises e _ => .raises e w
  | .returns _ object => .returns object w

/-- The only element of a list, if it has one; `e` where it has several. -/
def oneOrNone (e : ε) : List α → Stmt ω ε (Option α)
  | [] => pure none
  | [a] => pure (some a)
  | _ :: _ :: _ => raise e

@[simp] theorem pure_apply (a : α) (w : ω) : (pure a : Stmt ω ε α) w = .returns a w := rfl

@[simp] theorem raise_apply (e : ε) (w : ω) : (raise e : Stmt ω ε α) w = .raises e w := rfl

@[simp] theorem read_apply (f : ω → α) (w : ω) : (read f : Stmt ω ε α) w = .returns (f w) w := rfl

@[simp] theorem modify_apply (f : ω → ω) (w : ω) :
    (modify f : Stmt ω ε Unit) w = .returns () (f w) := rfl

theorem bind_of_returns {x : Stmt ω ε α} {f : α → Stmt ω ε β} {w w' : ω} {a : α}
    (h : x w = .returns a w') : (x >>= f) w = f a w' := by
  change (match x w with
    | .waits => Outcome.waits | .raises e w' => .raises e w' | .returns a w' => f a w') = _
  rw [h]

theorem bind_of_raises {x : Stmt ω ε α} {f : α → Stmt ω ε β} {w w' : ω} {e : ε}
    (h : x w = .raises e w') : (x >>= f) w = .raises e w' := by
  change (match x w with
    | .waits => Outcome.waits | .raises e w' => .raises e w' | .returns a w' => f a w') = _
  rw [h]

theorem bind_of_waits {x : Stmt ω ε α} {f : α → Stmt ω ε β} {w : ω}
    (h : x w = .waits) : (x >>= f) w = .waits := by
  change (match x w with
    | .waits => Outcome.waits | .raises e w' => .raises e w' | .returns a w' => f a w') = _
  rw [h]

@[simp] theorem ofExcept_ok (a : α) : (ofExcept (.ok a) : Stmt ω ε α) = pure a := rfl

@[simp] theorem ofExcept_error (e : ε) : (ofExcept (.error e) : Stmt ω ε α) = raise e := rfl

theorem on_of_returns {σ : Type} {x : Stmt σ ε Unit} {object object' : σ}
    (h : x object = .returns () object') : (on x object : Stmt ω ε σ) = pure object' := by
  funext w
  simp only [on, h]
  rfl

@[simp] theorem raise_bind (e : ε) (f : α → Stmt ω ε β) : (raise e >>= f) = raise e := rfl

instance : LawfulMonad (Stmt ω ε) := by
  refine LawfulMonad.mk' _ ?_ ?_ ?_
  · intro α x
    funext w
    cases h : x w with
    | waits => exact bind_of_waits h
    | raises e w' => exact bind_of_raises h
    | returns a w' => exact bind_of_returns h
  · intro α β a f
    rfl
  · intro α β γ x f g
    funext w
    cases h : x w with
    | waits => rw [bind_of_waits (bind_of_waits h), bind_of_waits h]
    | raises e w' => rw [bind_of_raises (bind_of_raises h), bind_of_raises h]
    | returns a w' =>
        rw [bind_of_returns h]
        change (match (x >>= f) w with
          | .waits => Outcome.waits | .raises e w' => .raises e w'
          | .returns b w' => g b w') = _
        rw [bind_of_returns h]
        rfl

/-- Partial correctness: `Q` of what is returned, `E` of what is raised. -/
def Ensures (x : Stmt ω ε α) (w : ω) (Q : α → ω → Prop) (E : ε → ω → Prop) : Prop :=
  match x w with
  | .waits => True
  | .raises e w' => E e w'
  | .returns a w' => Q a w'

section Rules
variable {x : Stmt ω ε α} {f : α → Stmt ω ε β} {w : ω}
  {Q Q' : α → ω → Prop} {R : β → ω → Prop} {E E' : ε → ω → Prop}

theorem Ensures.mono (h : Ensures x w Q E) (hQ : ∀ a w', Q a w' → Q' a w')
    (hE : ∀ e w', E e w' → E' e w') : Ensures x w Q' E' := by
  cases hx : x w with
  | waits => simp only [Ensures, hx]
  | raises e w' =>
      simp only [Ensures, hx] at h ⊢
      exact hE e w' h
  | returns a w' =>
      simp only [Ensures, hx] at h ⊢
      exact hQ a w' h

theorem Ensures.and (h : Ensures x w Q E) (h' : Ensures x w Q' E') :
    Ensures x w (fun a w' => Q a w' ∧ Q' a w') (fun e w' => E e w' ∧ E' e w') := by
  cases hx : x w with
  | waits => simp only [Ensures, hx]
  | raises e w' =>
      simp only [Ensures, hx] at h h' ⊢
      exact ⟨h, h'⟩
  | returns a w' =>
      simp only [Ensures, hx] at h h' ⊢
      exact ⟨h, h'⟩

theorem Ensures.bind (h : Ensures x w (fun a w' => Ensures (f a) w' R E) E) :
    Ensures (x >>= f) w R E := by
  cases hx : x w with
  | waits => simp only [Ensures, bind_of_waits hx]
  | raises e w' =>
      simp only [Ensures, hx] at h
      simpa only [Ensures, bind_of_raises hx] using h
  | returns a w' =>
      simp only [Ensures, hx] at h
      simpa only [Ensures, bind_of_returns hx] using h

/-- What is known of the first of two statements carries over to both. -/
theorem Ensures.seq (hx : Ensures x w Q E')
    (hf : ∀ a w', Q a w' → Ensures (f a) w' R E) (hE : ∀ e w', E' e w' → E e w') :
    Ensures (x >>= f) w R E :=
  .bind (hx.mono hf hE)

theorem ofExcept_ensures (r : Except ε α) :
    Ensures (ofExcept r) w (fun a w' => w' = w ∧ r = .ok a)
      (fun e w' => w' = w ∧ r = .error e) := by
  cases r with
  | error e => exact ⟨rfl, rfl⟩
  | ok a => exact ⟨rfl, rfl⟩

theorem oneOrNone_ensures (e : ε) (as : List α) :
    Ensures (oneOrNone e as) w (fun o w' => w' = w ∧ as = o.toList) (fun _ w' => w' = w) := by
  match as with
  | [] => exact ⟨rfl, rfl⟩
  | [a] => exact ⟨rfl, rfl⟩
  | _ :: _ :: _ => exact rfl

theorem Ensures.of_returns (h : Ensures x w Q E) {a : α} {w' : ω}
    (hx : x w = .returns a w') : Q a w' := by
  simpa only [Ensures, hx] using h

theorem Ensures.of_raises (h : Ensures x w Q E) {e : ε} {w' : ω}
    (hx : x w = .raises e w') : E e w' := by
  simpa only [Ensures, hx] using h

end Rules

/-- The statement does not wait, and `Q` holds of what it returns. -/
def Settles (x : Stmt ω ε α) (w : ω) (Q : α → ω → Prop) : Prop :=
  match x w with
  | .waits => False
  | .raises _ _ => True
  | .returns a w' => Q a w'

section Settling
variable {x : Stmt ω ε α} {f : α → Stmt ω ε β} {w : ω} {R : β → ω → Prop}

theorem Settles.bind (h : Settles x w fun a w' => Settles (f a) w' R) :
    Settles (x >>= f) w R := by
  cases hx : x w with
  | waits => simp only [Settles, hx] at h
  | raises e w' => simp only [Settles, bind_of_raises hx]
  | returns a w' =>
      simp only [Settles, hx] at h
      simpa only [Settles, bind_of_returns hx] using h

theorem ofExcept_settles (r : Except ε α) (w : ω) :
    Settles (ofExcept r) w fun _ w' => w' = w := by
  cases r with
  | error e => trivial
  | ok a => rfl

theorem oneOrNone_settles (e : ε) (as : List α) (w : ω) :
    Settles (oneOrNone e as) w fun _ w' => w' = w := by
  match as with
  | [] => rfl
  | [a] => rfl
  | _ :: _ :: _ => trivial

theorem Settles.mono {Q Q' : α → ω → Prop} (h : Settles x w Q)
    (hQ : ∀ a w', Q a w' → Q' a w') : Settles x w Q' := by
  cases hx : x w with
  | waits => simp only [Settles, hx] at h
  | raises e w' => simp only [Settles, hx]
  | returns a w' =>
      simp only [Settles, hx] at h ⊢
      exact hQ a w' h

theorem Settles.seq {Q : α → ω → Prop} (hx : Settles x w Q)
    (hf : ∀ a w', Q a w' → Settles (f a) w' R) : Settles (x >>= f) w R :=
  .bind (hx.mono hf)

end Settling

section Bodies
variable {φ : Type} (resume : φ → Stmt ω ε (φ ⊕ α))

/-- At most `fuel` statements of a body, one after the other. -/
def iterate : Nat → φ → Stmt ω ε α
  | 0, _ => fun _ => .waits
  | fuel + 1, p => resume p >>= Sum.elim (iterate fuel) pure

variable {resume}

theorem iterate_succ (fuel : Nat) (p : φ) :
    iterate resume (fuel + 1) p = resume p >>= Sum.elim (iterate resume fuel) pure := rfl

theorem iterate_of_next {fuel : Nat} {p q : φ} {w w' : ω}
    (h : resume p w = .returns (.inl q) w') :
    iterate resume (fuel + 1) p w = iterate resume fuel q w' := by
  simp only [iterate, bind_of_returns h, Sum.elim_inl]

theorem iterate_of_returns {fuel : Nat} {p : φ} {w w' : ω} {a : α}
    (h : resume p w = .returns (.inr a) w') :
    iterate resume (fuel + 1) p w = .returns a w' := by
  simp only [iterate, bind_of_returns h, Sum.elim_inr, pure_apply]

theorem iterate_of_raises {fuel : Nat} {p : φ} {w w' : ω} {e : ε}
    (h : resume p w = .raises e w') :
    iterate resume (fuel + 1) p w = .raises e w' := by
  simp only [iterate, bind_of_raises h]

/-- The rule for bodies: an assertion for each phase, kept by every statement. -/
theorem iterate_ensures {J : φ → ω → Prop} {Q : α → ω → Prop} {E : ε → ω → Prop}
    (h : ∀ p w, J p w → Ensures (resume p) w (fun x w' => Sum.elim (J · w') (Q · w') x) E)
    (fuel : Nat) {p : φ} {w : ω} (hp : J p w) : Ensures (iterate resume fuel p) w Q E := by
  induction fuel generalizing p w with
  | zero => trivial
  | succ fuel ih =>
      rw [iterate_succ]
      refine Ensures.bind ((h p w hp).mono ?_ fun _ _ he => he)
      intro x w' hx
      cases x with
      | inl q => exact ih hx
      | inr a => exact hx

end Bodies
end Stmt
