import CrediGuard.Gateway.Proxy

/-!
The headers `ProxyService` sends, as the bytes they are on the wire.

A name is checked in lower case and then encoded, and the encoding leaves out what
is not Latin-1. Names that come from the server are Latin-1 throughout, so nothing
is left out and no name turns into one of the gateway's behind the check.
-/

namespace CrediGuard.Gateway

section Statement

/-- The name of a header on the wire, in lower case. -/
def wireName (p : ByteArray × ByteArray) : String := (Latin1.decode p.1).toLower

def named (headers : List (ByteArray × ByteArray)) (name : String) :
    List (ByteArray × ByteArray) :=
  headers.filter fun p => wireName p = name

/-- The names the gateway sets itself. -/
def injectedHeaders : List String := ["x-user-id", "x-user-roles", "x-correlation-id"]

/-- The headers of the client that are its own business. -/
def otherHeaders (clientHeaders : List (String × String)) : List (String × String) :=
  clientHeaders.filter fun p => p.1.toLower ∉ strippedHeaders ++ blockedHeaders

/-- What the service behind the gateway may trust of the headers it is sent. -/
structure Trusted (clientHeaders : List (String × String)) (applicantId : Option String)
    (correlationId : String) (headers : List (ByteArray × ByteArray)) : Prop where
  userId : named headers "x-user-id" =
    (applicantId.map fun id => ("X-User-ID".toUTF8, id.toUTF8)).toList
  userRoles : named headers "x-user-roles" =
    (applicantId.map fun _ => ("X-User-Roles".toUTF8, "applicant".toUTF8)).toList
  correlationId : named headers "x-correlation-id" =
    [("X-Correlation-ID".toUTF8, correlationId.toUTF8)]
  removed : ∀ name ∈ ["authorization", "cookie", "host", "content-length", "connection",
    "transfer-encoding", "upgrade"], named headers name = []
  others : (headers.filter fun p => wireName p ∉ injectedHeaders).map
    (fun p => (Latin1.decode p.1, Latin1.decode p.2)) = otherHeaders clientHeaders

end Statement

section Names

theorem ascii_reserved : ∀ n ∈ strippedHeaders ++ blockedHeaders, Latin1.IsAscii n := by
  have hall : ∀ n ∈ strippedHeaders ++ blockedHeaders,
      (n.toList.all fun c => c.toNat < 128) = true := by decide
  exact fun n hn => Latin1.isAscii_of_all (hall n hn)

/-- The check of the gateway is the one on names in any case. -/
theorem lower_not_mem_iff {k : String} (hk : Latin1.IsText k) :
    (Latin1.lower k ∉ strippedHeaders ∧ Latin1.lower k ∉ blockedHeaders) ↔
      k.toLower ∉ strippedHeaders ++ blockedHeaders := by
  rw [← Latin1.lower_mem_iff hk ascii_reserved, List.mem_append, not_or]

end Names

section Main
variable {clientHeaders : List (String × String)} {applicantId : Option String}
  {correlationId : String}

/-- Names and values as the server reads them. -/
def Latin1Headers (clientHeaders : List (String × String)) : Prop :=
  ∀ p ∈ clientHeaders, Latin1.IsText p.1 ∧ Latin1.IsText p.2

def encodeHeader (p : String × String) : ByteArray × ByteArray :=
  (Latin1.encode p.1, Latin1.encode p.2)

theorem rewriteHeaders_eq (h : Latin1Headers clientHeaders) :
    rewriteHeaders clientHeaders applicantId correlationId =
      (otherHeaders clientHeaders).map encodeHeader ++ identityHeaders applicantId ++
        [("X-Correlation-ID".toUTF8, correlationId.toUTF8)] := by
  have hkept : clientHeaders.filter (fun p =>
      Latin1.lower p.1 ∉ strippedHeaders ∧ Latin1.lower p.1 ∉ blockedHeaders) =
      otherHeaders clientHeaders :=
    List.filter_congr fun p hp => decide_eq_decide.mpr (lower_not_mem_iff (h p hp).1)
  simp only [rewriteHeaders, hkept]
  rfl

theorem wireName_encodeHeader {p : String × String} (h : Latin1.IsText p.1) :
    wireName (encodeHeader p) = p.1.toLower := by
  rw [wireName, encodeHeader, Latin1.decode_encode h]

theorem wireName_injected (value : ByteArray) :
    wireName ("X-User-ID".toUTF8, value) = "x-user-id" ∧
      wireName ("X-User-Roles".toUTF8, value) = "x-user-roles" ∧
      wireName ("X-Correlation-ID".toUTF8, value) = "x-correlation-id" := by
  have hclosed : (Latin1.decode "X-User-ID".toUTF8).toLower = "x-user-id" ∧
      (Latin1.decode "X-User-Roles".toUTF8).toLower = "x-user-roles" ∧
      (Latin1.decode "X-Correlation-ID".toUTF8).toLower = "x-correlation-id" := by
    decide +kernel
  exact hclosed

theorem mem_otherHeaders {p : String × String} (h : p ∈ otherHeaders clientHeaders) :
    p ∈ clientHeaders ∧ p.1.toLower ∉ strippedHeaders ++ blockedHeaders := by
  obtain ⟨hmem, hother⟩ := List.mem_filter.mp h
  exact ⟨hmem, of_decide_eq_true hother⟩

/-- No header of the client passes under a name the gateway keeps for itself. -/
theorem named_others (h : Latin1Headers clientHeaders) {name : String}
    (hname : name ∈ strippedHeaders ++ blockedHeaders) :
    named ((otherHeaders clientHeaders).map encodeHeader) name = [] := by
  apply List.filter_eq_nil_iff.mpr
  intro q hq
  obtain ⟨p, hp, rfl⟩ := List.mem_map.mp hq
  obtain ⟨hmem, hother⟩ := mem_otherHeaders hp
  rw [wireName_encodeHeader (h p hmem).1]
  intro heq
  exact hother (of_decide_eq_true heq ▸ hname)

theorem named_cons (p : ByteArray × ByteArray) (headers : List (ByteArray × ByteArray))
    (name : String) : named (p :: headers) name =
      if wireName p = name then p :: named headers name else named headers name := by
  simp only [named, List.filter_cons, decide_eq_true_eq]

theorem named_append (headers headers' : List (ByteArray × ByteArray)) (name : String) :
    named (headers ++ headers') name = named headers name ++ named headers' name :=
  List.filter_append ..

theorem named_identity (applicantId : Option String) (name : String) :
    named (identityHeaders applicantId) name =
      if name = "x-user-id" then
        (applicantId.map fun id => ("X-User-ID".toUTF8, id.toUTF8)).toList
      else if name = "x-user-roles" then
        (applicantId.map fun _ => ("X-User-Roles".toUTF8, "applicant".toUTF8)).toList
      else [] := by
  cases applicantId with
  | none => split <;> [rfl; (split <;> rfl)]
  | some id =>
      have hid := (wireName_injected id.toUTF8).1
      have hroles := (wireName_injected "applicant".toUTF8).2.1
      simp only [identityHeaders, named_cons, hid, hroles, eq_comm (b := name)]
      by_cases huser : name = "x-user-id"
      · subst huser
        rfl
      · by_cases hrole : name = "x-user-roles"
        · subst hrole
          rfl
        · simp only [if_neg huser, if_neg hrole]
          rfl

theorem named_correlation (correlationId name : String) :
    named [("X-Correlation-ID".toUTF8, correlationId.toUTF8)] name =
      if name = "x-correlation-id" then [("X-Correlation-ID".toUTF8, correlationId.toUTF8)]
      else [] := by
  simp only [named_cons, (wireName_injected correlationId.toUTF8).2.2, eq_comm (b := name)]
  rfl

/-- What the service finds under a name the gateway keeps for itself. -/
theorem named_rewriteHeaders (h : Latin1Headers clientHeaders) {name : String}
    (hname : name ∈ strippedHeaders ++ blockedHeaders) :
    named (rewriteHeaders clientHeaders applicantId correlationId) name =
      named (identityHeaders applicantId) name ++
        named [("X-Correlation-ID".toUTF8, correlationId.toUTF8)] name := by
  rw [rewriteHeaders_eq h, named_append, named_append, named_others h hname, List.nil_append]

theorem wireName_mem_injected : ∀ p ∈ identityHeaders applicantId ++
    [("X-Correlation-ID".toUTF8, correlationId.toUTF8)], wireName p ∈ injectedHeaders := by
  intro p hp
  cases List.mem_append.mp hp with
  | inl hidentity =>
      cases applicantId with
      | none => cases hidentity
      | some id =>
          cases List.mem_cons.mp hidentity with
          | inl heq =>
              rw [heq, (wireName_injected _).1]
              exact .head _
          | inr htail =>
              rw [List.mem_singleton.mp htail, (wireName_injected _).2.1]
              exact .tail _ (.head _)
  | inr hcorrelation =>
      rw [List.mem_singleton.mp hcorrelation, (wireName_injected _).2.2]
      exact .tail _ (.tail _ (.head _))

theorem injected_reserved : ∀ name ∈ injectedHeaders, name ∈ strippedHeaders ++ blockedHeaders := by
  decide

/-- What the gateway does not set itself decodes to the client's other headers. -/
theorem rewriteHeaders_others (h : Latin1Headers clientHeaders) :
    ((rewriteHeaders clientHeaders applicantId correlationId).filter
        fun p => wireName p ∉ injectedHeaders).map
      (fun p => (Latin1.decode p.1, Latin1.decode p.2)) = otherHeaders clientHeaders := by
  have hinjected : (identityHeaders applicantId ++
      [("X-Correlation-ID".toUTF8, correlationId.toUTF8)]).filter
        (fun p => wireName p ∉ injectedHeaders) = [] := by
    apply List.filter_eq_nil_iff.mpr
    intro p hp hnot
    exact of_decide_eq_true hnot (wireName_mem_injected p hp)
  have hkept : ((otherHeaders clientHeaders).map encodeHeader).filter
      (fun p => wireName p ∉ injectedHeaders) = (otherHeaders clientHeaders).map encodeHeader := by
    apply List.filter_eq_self.mpr
    intro q hq
    obtain ⟨p, hp, rfl⟩ := List.mem_map.mp hq
    obtain ⟨hmem, hother⟩ := mem_otherHeaders hp
    rw [wireName_encodeHeader (h p hmem).1]
    exact decide_eq_true fun hin => hother (injected_reserved _ hin)
  have hdecode : ∀ p ∈ otherHeaders clientHeaders,
      (Latin1.decode (encodeHeader p).1, Latin1.decode (encodeHeader p).2) = p := by
    intro p hp
    obtain ⟨hname, hvalue⟩ := h p (mem_otherHeaders hp).1
    rw [encodeHeader, Latin1.decode_encode hname, Latin1.decode_encode hvalue]
  rw [rewriteHeaders_eq h, List.append_assoc, List.filter_append, hinjected, hkept,
    List.append_nil, List.map_map]
  conv_rhs => rw [← List.map_id (otherHeaders clientHeaders)]
  exact List.map_congr_left hdecode

theorem rewriteHeaders_trusted (h : Latin1Headers clientHeaders) :
    Trusted clientHeaders applicantId correlationId
      (rewriteHeaders clientHeaders applicantId correlationId) := by
  refine ⟨?_, ?_, ?_, ?_, rewriteHeaders_others h⟩
  · rw [named_rewriteHeaders h (by decide), named_identity, named_correlation, if_pos rfl,
      if_neg (by decide), List.append_nil]
  · rw [named_rewriteHeaders h (by decide), named_identity, named_correlation,
      if_neg (by decide), if_pos rfl, if_neg (by decide), List.append_nil]
  · rw [named_rewriteHeaders h (by decide), named_identity, named_correlation,
      if_neg (by decide), if_neg (by decide), if_pos rfl, List.nil_append]
  · intro name hname
    have hreserved : ∀ n ∈ ["authorization", "cookie", "host", "content-length", "connection",
        "transfer-encoding", "upgrade"], n ∈ strippedHeaders ++ blockedHeaders ∧
          n ∉ injectedHeaders := by decide
    obtain ⟨hmem, hnot⟩ := hreserved name hname
    simp only [injectedHeaders, List.mem_cons, List.not_mem_nil, or_false, not_or] at hnot
    rw [named_rewriteHeaders h hmem, named_identity, named_correlation, if_neg hnot.1,
      if_neg hnot.2.1, if_neg hnot.2.2, List.nil_append]

/-- A client cannot speak in the gateway's name: the service is sent the gateway's
headers once, the client's other headers as they were, and nothing of the rest. -/
theorem rewriteHeaders_unspoofable (h : Latin1Headers clientHeaders)
    (applicantId : Option String) (correlationId : String) :
    Trusted clientHeaders applicantId correlationId
        (rewriteHeaders clientHeaders applicantId correlationId) ∧
      ∀ clientHeaders', Latin1Headers clientHeaders' →
        otherHeaders clientHeaders' = otherHeaders clientHeaders →
          rewriteHeaders clientHeaders' applicantId correlationId =
              rewriteHeaders clientHeaders applicantId correlationId ∧
            ∀ method path queryString baseUrl body,
              buildRequest method path queryString baseUrl clientHeaders' body applicantId
                  correlationId =
                buildRequest method path queryString baseUrl clientHeaders body applicantId
                  correlationId := by
  refine ⟨rewriteHeaders_trusted h, ?_⟩
  intro clientHeaders' h' hothers
  have hheaders : rewriteHeaders clientHeaders' applicantId correlationId =
      rewriteHeaders clientHeaders applicantId correlationId := by
    rw [rewriteHeaders_eq h', rewriteHeaders_eq h, hothers]
  refine ⟨hheaders, ?_⟩
  intro method path queryString baseUrl body
  simp only [buildRequest, hheaders]

/-- A request with the gateway's names in two spellings and one header of its own. -/
def spoofed : List (String × String) :=
  [("X-User-ID", "attacker"), ("x-user-id", "attacker"), ("X-USER-ROLES", "admin"),
    ("Content-Type", "text/plain; name=é")]

theorem rewriteHeaders_unspoofable_spoofed :
    Trusted spoofed (some "u-1") "c-1" (rewriteHeaders spoofed (some "u-1") "c-1") := by
  have hall : ∀ p ∈ spoofed, (p.1.toList.all fun c => c.toNat < 256) = true ∧
      (p.2.toList.all fun c => c.toNat < 256) = true := by decide +kernel
  have hlatin : Latin1Headers spoofed := fun p hp =>
    ⟨Latin1.isText_of_all (hall p hp).1, Latin1.isText_of_all (hall p hp).2⟩
  exact (rewriteHeaders_unspoofable hlatin (some "u-1") "c-1").1

end Main

end CrediGuard.Gateway
