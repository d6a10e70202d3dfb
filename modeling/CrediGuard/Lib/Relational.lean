import CrediGuard.Lib.Statement

/-!
Two runs of one statement.

`Agrees x R w w'` says that a statement does the same in the states `w` and `w'`: it
waits in both, or raises one error or returns one value in both, and leaves states
behind that are related by `R`.
-/

namespace Stmt
open Statement
variable {ω ε α β : Type}

def Agrees (x : Stmt ω ε α) (R : ω → ω → Prop) (w w' : ω) : Prop :=
  match x w, x w' with
  | .waits, .waits => True
  | .raises e u, .raises e' u' => e = e' ∧ R u u'
  | .returns a u, .returns a' u' => a = a' ∧ R u u'
  | _, _ => False

section Rules
variable {x : Stmt ω ε α} {f : α → Stmt ω ε β} {R S : ω → ω → Prop} {w w' : ω}

theorem agrees_pure {a : α} (h : R w w') : Agrees (pure a : Stmt ω ε α) R w w' := ⟨rfl, h⟩

theorem agrees_raise {e : ε} (h : R w w') : Agrees (raise e : Stmt ω ε α) R w w' := ⟨rfl, h⟩

theorem agrees_read {g : ω → α} (hg : g w = g w') (h : R w w') :
    Agrees (read g : Stmt ω ε α) R w w' := ⟨hg, h⟩

theorem agrees_ofExcept {r : Except ε α} (h : R w w') :
    Agrees (ofExcept r : Stmt ω ε α) R w w' := by
  cases r with
  | error e => exact ⟨rfl, h⟩
  | ok a => exact ⟨rfl, h⟩

theorem agrees_oneOrNone {e : ε} (as : List α) (h : R w w') :
    Agrees (oneOrNone e as : Stmt ω ε (Option α)) R w w' := by
  match as with
  | [] => exact ⟨rfl, h⟩
  | [a] => exact ⟨rfl, h⟩
  | a :: b :: rest => exact ⟨rfl, h⟩

theorem Agrees.bind (h : Agrees x R w w') (hS : ∀ u u', R u u' → S u u')
    (hf : ∀ a u u', R u u' → Agrees (f a) S u u') : Agrees (x >>= f) S w w' := by
  cases hx : x w with
  | waits =>
      cases hx' : x w' with
      | waits => simp only [Agrees, bind_of_waits hx, bind_of_waits hx']
      | raises e' u' => simp only [Agrees, hx, hx'] at h
      | returns a' u' => simp only [Agrees, hx, hx'] at h
  | raises e u =>
      cases hx' : x w' with
      | waits => simp only [Agrees, hx, hx'] at h
      | raises e' u' =>
          simp only [Agrees, hx, hx'] at h
          simp only [Agrees, bind_of_raises hx, bind_of_raises hx']
          exact ⟨h.1, hS u u' h.2⟩
      | returns a' u' => simp only [Agrees, hx, hx'] at h
  | returns a u =>
      cases hx' : x w' with
      | waits => simp only [Agrees, hx, hx'] at h
      | raises e' u' => simp only [Agrees, hx, hx'] at h
      | returns a' u' =>
          simp only [Agrees, hx, hx'] at h
          obtain ⟨rfl, hR⟩ := h
          simp only [Agrees, bind_of_returns hx, bind_of_returns hx']
          exact hf a u u' hR

theorem Agrees.of_returns (h : Agrees x R w w') {a : α} {u : ω} (hx : x w = .returns a u) :
    ∃ u', x w' = .returns a u' ∧ R u u' := by
  cases hx' : x w' with
  | waits => simp only [Agrees, hx, hx'] at h
  | raises e' u' => simp only [Agrees, hx, hx'] at h
  | returns a' u' =>
      simp only [Agrees, hx, hx'] at h
      exact ⟨u', by rw [h.1], h.2⟩

theorem Agrees.of_raises (h : Agrees x R w w') {e : ε} {u : ω} (hx : x w = .raises e u) :
    ∃ u', x w' = .raises e u' ∧ R u u' := by
  cases hx' : x w' with
  | waits => simp only [Agrees, hx, hx'] at h
  | returns a' u' => simp only [Agrees, hx, hx'] at h
  | raises e' u' =>
      simp only [Agrees, hx, hx'] at h
      exact ⟨u', by rw [h.1], h.2⟩

theorem Agrees.waits_iff (h : Agrees x R w w') : x w = .waits ↔ x w' = .waits := by
  cases hx : x w with
  | waits =>
      cases hx' : x w' with
      | waits => exact Iff.rfl
      | raises e' u' => simp only [Agrees, hx, hx'] at h
      | returns a' u' => simp only [Agrees, hx, hx'] at h
  | raises e u =>
      obtain ⟨u', hx', _⟩ := h.of_raises hx
      simp [hx']
  | returns a u =>
      obtain ⟨u', hx', _⟩ := h.of_returns hx
      simp [hx']

end Rules

end Stmt
