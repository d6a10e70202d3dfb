import CrediGuard.Applicants.Service

/-!
The tokens that are made in a run of the applicant service.

An execution makes its two tokens before it stores the refresh token, and what is
signed stays signed, whether the execution returns or fails. It makes them once.
-/

namespace CrediGuard.Applicants

section Model

/-- A pair of tokens, with the execution and the applicant they are made by and for. -/
structure Mint where
  execution : Nat
  applicant : Applicant
  draws : TokenDraws

namespace Mint
variable (jose : Jose) (m : Mint)

def accessPayload : Json :=
  JWTService.accessPayload m.applicant.id m.applicant.email m.draws.accessAt

def refreshPayload : Json := JWTService.refreshPayload m.applicant.id m.draws.refreshAt

def accessToken : String :=
  JWTService.createAccessToken jose m.applicant.id m.applicant.email m.draws.accessAt

def refreshToken : String := JWTService.createRefreshToken jose m.applicant.id m.draws.refreshAt

/-- The `exp` of the access token. -/
def expiry : Int := toInt (m.draws.accessAt + JWTService.accessTokenLifetime)

end Mint

/-- What an execution of the draws `d` has just made, at the phase that stores it. -/
def Phase.mint? (n : Nat) (d : TokenDraws) : Phase → Option Mint
  | .saveToken applicant => some ⟨n, applicant, d⟩
  | _ => none

def Progress.mint? (n : Nat) (d : TokenDraws) : Progress → Option Mint
  | .running p => p.mint? n d
  | _ => none

/-- A run of the service with the tokens made so far. -/
structure Ledger where
  state : State
  minted : List Mint

/-- The tokens the move that leads to `s` has made. -/
def mints (s : State) : Label → List Mint
  | .await n => ((s.executions n).bind fun e => Progress.mint? n e.call.draws e.progress).toList
  | _ => []

variable (jose : Jose) (argon : Argon2)

def Ledger.step (h : Ledger) (l : Label) : Option Ledger :=
  (Applicants.step jose argon h.state l).map fun s => ⟨s, h.minted ++ mints s l⟩

/-- Everything that has been signed. -/
def Ledger.signed (h : Ledger) : List Json :=
  h.minted.flatMap fun m => [m.accessPayload, m.refreshPayload]

end Model

section Invariant
variable {jose : Jose} {argon : Argon2}

def mintsOf (minted : List Mint) (n : Nat) : List Mint := minted.filter fun m => m.execution = n

variable (jose) in
/-- What an execution has made at its position, and what it answers with. -/
def Made (minted : List Mint) (n : Nat) (d : TokenDraws) : Progress → Prop
  | .running p => mintsOf minted n = (p.mint? n d).toList
  | .committing response => ∃ applicant, mintsOf minted n = [⟨n, applicant, d⟩] ∧
      response = tokenResponse jose applicant d
  | .returned response => ∃ applicant, mintsOf minted n = [⟨n, applicant, d⟩] ∧
      response = tokenResponse jose applicant d
  | .aborting _ => True
  | .raised _ => True

variable (jose) in
structure LedgerInv (h : Ledger) : Prop where
  absent : ∀ n, h.state.executions n = none → mintsOf h.minted n = []
  present : ∀ n e, h.state.executions n = some e → Made jose h.minted n e.call.draws e.progress

theorem mintsOf_append (minted minted' : List Mint) (n : Nat) :
    mintsOf (minted ++ minted') n = mintsOf minted n ++ mintsOf minted' n :=
  List.filter_append ..

theorem mintsOf_mint? (n k : Nat) (d : TokenDraws) (p : Progress) :
    mintsOf (Progress.mint? n d p).toList k =
      if n = k then (Progress.mint? n d p).toList else [] := by
  cases hm : Progress.mint? n d p with
  | none => split <;> rfl
  | some m =>
      have hexecution : m.execution = n := by
        cases p with
        | running q =>
            cases q with
            | saveToken applicant => rw [← Option.some.inj hm]
            | _ => contradiction
        | _ => contradiction
      rw [Option.toList_some, mintsOf]
      split
      · rename_i hn
        exact List.filter_cons_of_pos (decide_eq_true (hexecution.trans hn))
      · rename_i hn
        exact List.filter_cons_of_neg fun heq => hn (hexecution.symm.trans (of_decide_eq_true heq))

/-- A phase that stores a token answers, and every other one leads to a phase. -/
theorem Does.next {t : Tx} {d : TokenDraws} {w w' : World} {p : Phase}
    {next : Phase ⊕ TokenResponse} (h : Does jose argon t d w p next w') :
    (∃ applicant, p = .saveToken applicant ∧ next = .inr (tokenResponse jose applicant d)) ∨
      (∀ n, p.mint? n d = none) ∧ ∃ q, next = .inl q := by
  cases p with
  | existsByEmail request r => exact .inr ⟨fun _ => rfl, _, h.2.1⟩
  | saveApplicant applicant => exact .inr ⟨fun _ => rfl, _, h.1⟩
  | getByEmail request =>
      obtain ⟨_, model, _, _, hnext⟩ := h
      exact .inr ⟨fun _ => rfl, _, hnext⟩
  | getAllValid request r =>
      obtain ⟨_, m, _, _, _, hnext⟩ := h
      exact .inr ⟨fun _ => rfl, _, hnext⟩
  | update token => exact .inr ⟨fun _ => rfl, _, h.1⟩
  | getById token =>
      obtain ⟨_, model, _, hnext⟩ := h
      exact .inr ⟨fun _ => rfl, _, hnext⟩
  | saveToken applicant => exact .inl ⟨applicant, rfl, h.1⟩

theorem mint?_start (o : Operation) (n : Nat) (d : TokenDraws) : o.start.mint? n d = none := by
  cases o with
  | register request r => rfl
  | login request => rfl
  | refresh request r => rfl

theorem Made.congr {minted minted' : List Mint} {n : Nat} {d : TokenDraws} {p : Progress}
    (h : Made jose minted n d p) (heq : mintsOf minted' n = mintsOf minted n) :
    Made jose minted' n d p := by
  cases p with
  | running q => exact heq.trans h
  | committing response =>
      obtain ⟨applicant, hmints, hresponse⟩ := h
      exact ⟨applicant, heq.trans hmints, hresponse⟩
  | returned response =>
      obtain ⟨applicant, hmints, hresponse⟩ := h
      exact ⟨applicant, heq.trans hmints, hresponse⟩
  | aborting error => trivial
  | raised error => trivial

/-- A move of one execution concerns its own tokens. -/
theorem LedgerInv.set {h : Ledger} (hinv : LedgerInv jose h) {s : State} {n : Nat} {e : Execution}
    {l : Label} (hexecutions : s.executions = Function.update h.state.executions n (some e))
    (hmints : ∀ k, k ≠ n → mintsOf (mints s l) k = [])
    (hmade : Made jose (h.minted ++ mints s l) n e.call.draws e.progress) :
    LedgerInv jose ⟨s, h.minted ++ mints s l⟩ := by
  have hother (k : Nat) (hk : k ≠ n) :
      mintsOf (h.minted ++ mints s l) k = mintsOf h.minted k := by
    rw [mintsOf_append, hmints k hk, List.append_nil]
  refine ⟨?_, ?_⟩
  · intro k hnone
    have hk : k ≠ n := by
      intro hk
      rw [hexecutions, hk, Function.update_self] at hnone
      contradiction
    rw [hexecutions, Function.update_of_ne hk] at hnone
    exact (hother k hk).trans (hinv.absent k hnone)
  · intro k e' he'
    rw [hexecutions] at he'
    by_cases hk : k = n
    · subst hk
      rw [Function.update_self] at he'
      rwa [← Option.some.inj he']
    · rw [Function.update_of_ne hk] at he'
      exact (hinv.present k e' he').congr (hother k hk)

/-- An advance makes the tokens of its own position. -/
theorem Made.advance {minted : List Mint} {n : Nat} {c : Call} {w w' : World} {p p' : Progress}
    (h : Made jose minted n c.draws p)
    (hadvance : Session.Advance (transaction jose argon n c) w p p' w') :
    Made jose (minted ++ (Progress.mint? n c.draws p').toList) n c.draws p' := by
  have hnew : mintsOf (minted ++ (Progress.mint? n c.draws p').toList) n =
      mintsOf minted n ++ (Progress.mint? n c.draws p').toList := by
    rw [mintsOf_append, mintsOf_mint?, if_pos rfl]
  cases hadvance with
  | next p q w' hresume =>
      have hdoes := (resume_ensures jose argon n c.draws w p).of_returns hresume
      cases hdoes.next with
      | inl hstores =>
          obtain ⟨applicant, rfl, rfl⟩ := hstores
          refine ⟨applicant, ?_, rfl⟩
          rw [hnew]
          exact (List.append_nil _).trans h
      | inr hleads =>
          obtain ⟨hnone, q, rfl⟩ := hleads
          have hbefore : mintsOf minted n = [] := by
            rw [Made, hnone] at h
            exact h
          change mintsOf _ n = (q.mint? n c.draws).toList
          exact hnew.trans (by rw [hbefore]; rfl)
  | raises p error w' hresume => trivial
  | commits response => exact h.congr (hnew.trans (List.append_nil _))
  | rollsBack error => trivial

theorem LedgerInv.step {h h' : Ledger} (hinv : LedgerInv jose h) {l : Label}
    (hstep : Ledger.step jose argon h l = some h') : LedgerInv jose h' := by
  obtain ⟨s, hs, rfl⟩ := Option.map_eq_some_iff.mp hstep
  cases l with
  | arrive n c =>
      obtain ⟨hnone, rfl⟩ := step_arrive_cases hs
      refine hinv.set rfl (fun _ _ => rfl) ?_
      change mintsOf (h.minted ++ []) n = (c.operation.start.mint? n c.draws).toList
      rw [mint?_start, List.append_nil]
      exact hinv.absent n hnone
  | awaitFails n =>
      obtain ⟨e, he, _, rfl⟩ := step_awaitFails_cases hs
      exact hinv.set rfl (fun _ _ => rfl) trivial
  | await n =>
      obtain ⟨e, progress, w, he, hadvance, rfl⟩ := step_await_cases hs
      have hmade := (hinv.present n e he).advance hadvance
      generalize hs' : ({ h.state.setExecution n { e with progress := progress } with
        world := w, issued := Progress.issues progress ++ h.state.issued } : State) = s'
      have hexecutions : s'.executions =
          Function.update h.state.executions n (some { e with progress := progress }) := by
        rw [← hs']
        rfl
      have hmints : mints s' (.await n) = (Progress.mint? n e.call.draws progress).toList := by
        rw [mints, hexecutions, Function.update_self]
        rfl
      refine hinv.set hexecutions ?_ ?_
      · intro k hk
        rw [hmints, mintsOf_mint?, if_neg (Ne.symm hk)]
      · rw [hmints]
        exact hmade

theorem LedgerInv.init {s : State} (hquiet : s.Quiet) : LedgerInv jose ⟨s, []⟩ := by
  refine ⟨fun _ _ => rfl, ?_⟩
  intro n e he
  have hnone := hquiet.executions n
  exact absurd (he.symm.trans hnone) (by simp)

theorem LedgerInv.of_run {s : State} {h : Ledger} {labels : List Label} (hquiet : s.Quiet)
    (hrun : Runs.run (Ledger.step jose argon) ⟨s, []⟩ labels = some h) : LedgerInv jose h :=
  Runs.invariant (I := LedgerInv jose) (fun _ _ _ hinv hstep => hinv.step hstep)
    (LedgerInv.init hquiet) hrun

/-- Every run of the service has its tokens. -/
theorem Ledger.exists_run {s s' : State} {labels : List Label} (minted : List Mint)
    (hrun : Runs.run (Applicants.step jose argon) s labels = some s') :
    ∃ minted', Runs.run (Ledger.step jose argon) ⟨s, minted⟩ labels = some ⟨s', minted'⟩ := by
  induction labels generalizing s minted with
  | nil => exact ⟨minted, congrArg _ (congrArg (Ledger.mk · minted) (Option.some.inj hrun))⟩
  | cons l labels ih =>
      obtain ⟨t, hstep, hrest⟩ := Runs.run_cons_eq_some.mp hrun
      obtain ⟨minted', hminted'⟩ := ih (minted ++ mints t l) hrest
      refine ⟨minted', Runs.run_cons_eq_some.mpr ⟨⟨t, minted ++ mints t l⟩, ?_, hminted'⟩⟩
      rw [Ledger.step, hstep]
      rfl

theorem mem_mintsOf {minted : List Mint} {m : Mint} {n : Nat} :
    m ∈ mintsOf minted n ↔ m ∈ minted ∧ m.execution = n := by
  rw [mintsOf, List.mem_filter, decide_eq_true_iff]

/-- What an execution returns, it has made. -/
theorem LedgerInv.exists_mint {h : Ledger} (hinv : LedgerInv jose h) {n : Nat} {e : Execution}
    {response : TokenResponse} (he : h.state.executions n = some e)
    (hreturned : e.progress = .returned response) :
    ∃ m ∈ h.minted, m.execution = n ∧ response = tokenResponse jose m.applicant m.draws := by
  have hmade := hinv.present n e he
  rw [hreturned] at hmade
  obtain ⟨applicant, hmints, hresponse⟩ := hmade
  have hmem : (⟨n, applicant, e.call.draws⟩ : Mint) ∈ mintsOf h.minted n := by
    rw [hmints]
    exact List.mem_singleton_self _
  exact ⟨_, (mem_mintsOf.mp hmem).1, rfl, hresponse⟩

/-- An execution that returns, returns the tokens it has made. -/
theorem LedgerInv.response_eq {h : Ledger} (hinv : LedgerInv jose h) {m : Mint}
    (hm : m ∈ h.minted) {e : Execution} {response : TokenResponse}
    (he : h.state.executions m.execution = some e) (hreturned : e.progress = .returned response) :
    response = tokenResponse jose m.applicant m.draws := by
  have hmade := hinv.present m.execution e he
  rw [hreturned] at hmade
  obtain ⟨applicant, hmints, hresponse⟩ := hmade
  have hmem : m ∈ mintsOf h.minted m.execution := mem_mintsOf.mpr ⟨hm, rfl⟩
  rw [hmints] at hmem
  rw [List.mem_singleton.mp hmem]
  exact hresponse

end Invariant

end CrediGuard.Applicants
