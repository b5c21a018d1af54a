import Fuse.Foundation.Radix

/-!
# Signed requests

A client signs the body of a request, with a time before it if it wants the
request to expire (`request_signing.rs`).  The server looks at the time only if
the request comes with one, and the text that is signed does not say whether it
began with a time.
-/

namespace Fuse.Server

open Foundation Panicking List

/-! ## The code of a message -/

abbrev Bytes := List UInt8

class Mac where
  code : (secret message : Bytes) → Bytes

/-- A message code that is as good as it can be: no two messages or secrets
share a code. -/
class PerfectMac extends Mac where
  code_injective : ∀ {secret secret' message message' : Bytes},
    code secret message = code secret' message' →
      secret = secret' ∧ message = message'

structure SigningKey where
  keyId : Str
  secret : Bytes
  deriving DecidableEq, Repr

structure SigningConfig where
  secrets : List SigningKey
  maxAgeSecs : UInt64
  deriving DecidableEq, Repr

def SigningConfig.isEnabled (config : SigningConfig) : Bool :=
  !config.secrets.isEmpty

inductive SigningError where
  | invalidFormat
  | invalidSignature
  | invalidKey
  | expired
  deriving DecidableEq, Repr

def SigningError.toText : SigningError → Str
  | .invalidFormat => "invalid signature format (expected sha256=<hex>)"
  | .invalidSignature => "invalid request signature"
  | .invalidKey => "invalid signing key"
  | .expired => "request timestamp expired"

/-! ## Signing and verifying -/

def dot : UInt8 := 46

def timeBytes (ts : UInt64) : Bytes :=
  (Str.ofNat ts.toNat).map fun c => UInt8.ofNat c.toNat

def buildPayload (timestamp : Option UInt64) (body : Bytes) : Bytes :=
  match timestamp with
  | some ts => timeBytes ts ++ dot :: body
  | none => body

def absDiff (m n : UInt64) : Nat := (m.toNat - n.toNat) + (n.toNat - m.toNat)

theorem toNat_digitByte {n : Nat} {c : Char} (h : c ∈ Str.ofNat n) :
    c.isDigit = true ∧ (UInt8.ofNat c.toNat).toNat = c.toNat := by
  have hdigit : c.isDigit = true :=
    Nat.isDigit_of_mem_toDigits (by decide) (by decide) h
  have halnum : c.isAlphanum = true := by
    rw [Char.isAlphanum, hdigit, Bool.or_true]
  have hlt := Str.isAlphanum_lt halnum
  exact ⟨hdigit, UInt8.toNat_ofNat_of_lt' (Nat.lt_trans hlt (by decide))⟩

theorem dot_notMem_timeBytes (ts : UInt64) : dot ∉ timeBytes ts := by
  intro h
  obtain ⟨c, hc, heq⟩ := mem_map.mp h
  obtain ⟨hdigit, hnat⟩ := toNat_digitByte hc
  have hc46 : c.toNat = 46 := by
    rw [← hnat, heq]
    rfl
  have hdot : c = '.' := by rw [← Char.ofNat_toNat c, hc46]
  rw [hdot] at hdigit
  cases hdigit

theorem timeBytes_injective : Function.Injective timeBytes := by
  have hback : ∀ ts : UInt64,
      (timeBytes ts).map (fun b => Char.ofNat b.toNat) =
        Str.ofNat ts.toNat := by
    intro ts
    rw [timeBytes, map_map]
    refine (map_congr_left fun c hc => ?_).trans (map_id _)
    rw [Function.comp_apply, (toNat_digitByte hc).2, Char.ofNat_toNat]
    rfl
  intro t t' h
  have htext := congrArg (List.map fun b => Char.ofNat b.toNat) h
  rw [hback, hback] at htext
  exact UInt64.toNat_inj.mp (Str.ofNat_injective htext)

theorem timeBytes_ne_dot (ts : UInt64) :
    ∀ b ∈ timeBytes ts, (b != dot) = true := by
  intro b hb
  rw [bne_iff_ne]
  rintro rfl
  exact dot_notMem_timeBytes ts hb

theorem takeWhile_time (ts : UInt64) (b : Bytes) :
    (timeBytes ts ++ dot :: b).takeWhile (· != dot) = timeBytes ts := by
  rw [takeWhile_append_of_pos (timeBytes_ne_dot ts)]
  simp

private theorem dropWhile_time (ts : UInt64) (b : Bytes) :
    (timeBytes ts ++ dot :: b).dropWhile (· != dot) = dot :: b := by
  rw [dropWhile_append_of_pos (timeBytes_ne_dot ts)]
  simp

theorem buildPayload_some_inj {t t' : UInt64} {b b' : Bytes} :
    buildPayload (some t) b = buildPayload (some t') b' ↔ t = t' ∧ b = b' := by
  constructor
  · intro h
    have hdrop := congrArg (List.dropWhile (· != dot)) h
    have htake := congrArg (List.takeWhile (· != dot)) h
    simp only [buildPayload, takeWhile_time, dropWhile_time] at htake hdrop
    exact ⟨timeBytes_injective htake, (List.cons.inj hdrop).2⟩
  · rintro ⟨rfl, rfl⟩
    rfl

theorem buildPayload_cases {timestamp timestamp' : Option UInt64}
    {body body' : Bytes}
    (h : buildPayload timestamp body = buildPayload timestamp' body') :
    (timestamp = timestamp' ∧ body = body') ∨
    (∃ ts, timestamp = none ∧ timestamp' = some ts ∧
      body = buildPayload (some ts) body') ∨
    ∃ ts, timestamp = some ts ∧ timestamp' = none ∧
        body' = buildPayload (some ts) body := by
  cases timestamp with
  | none =>
    cases timestamp' with
    | none => exact .inl ⟨rfl, h⟩
    | some ts => exact .inr (.inl ⟨ts, rfl, rfl, h⟩)
  | some ts =>
    cases timestamp' with
    | none => exact .inr (.inr ⟨ts, rfl, rfl, h.symm⟩)
    | some ts' =>
      obtain ⟨rfl, rfl⟩ := buildPayload_some_inj.mp h
      exact .inl ⟨rfl, rfl⟩

variable {config : SigningConfig} {now : UInt64} {header : Str}
  {timestamp : Option UInt64} {body : Bytes}

section Requests

variable [Mac]

def signRequest (secret : Bytes) (timestamp : Option UInt64) (body : Bytes) :
    Str :=
  ("sha256=" : Str) ++ hexEncode (Mac.code secret (buildPayload timestamp body))

def headerCode (signatureHeader : Str) : Panicking SigningError Bytes :=
  match Str.stripStart "sha256=" signatureHeader with
  | none => throw .invalidFormat
  | some hex =>
    ExceptT.mk ((hexDecode hex).run.map fun r => r.mapError fun _ =>
      .invalidFormat)

/-- Every secret gives a key, so `invalidKey` does not occur. -/
def verifySignature (config : SigningConfig) (now : UInt64)
    (signatureHeader : Str)
    (timestamp : Option UInt64) (body : Bytes) : Panicking SigningError Unit :=
  if !config.isEnabled then return ()
  else if timestamp.any fun ts => config.maxAgeSecs.toNat < absDiff now ts then
    throw .expired
  else do
    let expected ← headerCode signatureHeader
    let payload := buildPayload timestamp body
    if config.secrets.any fun key =>
        Mac.code key.secret payload == expected then return ()
    else throw .invalidSignature

/-! ## The middleware -/

structure SignedRequest where
  path : Str
  isPost : Bool
  signature : Option Str
  timestamp : Option Str
  body : Bytes

inductive SigningVerdict where
  | forward
  | reject (status : Nat) (message : Str)
  deriving DecidableEq, Repr

def unsignedPaths : List Str :=
  ["/api/fuse/health", "/metrics", "/", "/playground"]

def SignedRequest.time (req : SignedRequest) : Option UInt64 :=
  (req.timestamp.bind (Str.parseUnsigned 64)).map UInt64.ofNat

def signingMiddleware (signing : Option SigningConfig) (now : UInt64)
    (req : SignedRequest) : Except Panic SigningVerdict :=
  match signing with
  | none => .ok .forward
  | some config =>
    if !config.isEnabled then .ok .forward
    else if req.path ∈ unsignedPaths then .ok .forward
    else if !req.isPost then .ok .forward
    else if 10 * 1024 * 1024 < req.body.length then
      .ok (.reject 413 "request body too large")
    else
      match req.signature with
      | none => .ok (.reject 401 "missing X-Fuse-Signature header")
      | some sig => do
          match ← (verifySignature config now sig req.time req.body).run with
          | .ok () => return .forward
          | .error e => return .reject 401 e.toText

/-! ## Accepted requests -/

def Accepted (config : SigningConfig) (now : UInt64) (header : Str)
    (timestamp : Option UInt64) (body : Bytes) : Prop :=
  (verifySignature config now header timestamp body).run = .ok (.ok ())

theorem headerCode_signRequest (secret : Bytes) (timestamp : Option UInt64)
    (body : Bytes) :
    (headerCode (signRequest secret timestamp body)).run =
      .ok (.ok (Mac.code secret (buildPayload timestamp body))) := by
  have hstrip : Str.stripStart "sha256=" (signRequest secret timestamp body) =
      some (hexEncode (Mac.code secret (buildPayload timestamp body))) :=
    dropPrefix?_eq_some_iff.mpr ⟨"sha256=".toList, rfl, by simp⟩
  rw [headerCode, hstrip]
  dsimp only
  rw [hexDecode_hexEncode]
  rfl

theorem accepted_iff (henabled : config.isEnabled = true) :
    Accepted config now header timestamp body ↔
      (∀ ts ∈ timestamp, absDiff now ts ≤ config.maxAgeSecs.toNat) ∧
      ∃ key ∈ config.secrets, (headerCode header).run =
      .ok (.ok (Mac.code key.secret
          (buildPayload timestamp body))) := by
  have htime : (timestamp.any fun ts =>
      config.maxAgeSecs.toNat < absDiff now ts) = true ↔
      ¬∀ ts ∈ timestamp, absDiff now ts ≤ config.maxAgeSecs.toNat := by
    cases timestamp <;> simp
  unfold Accepted verifySignature
  rw [henabled, Bool.not_true, if_neg Bool.false_ne_true]
  split
  · rename_i hexpired
    constructor
    · intro h
      cases h
    · intro h
      exact absurd h.1 (htime.mp hexpired)
  · rename_i hfresh
    rw [and_iff_right (not_not.mp (hfresh ∘ htime.mpr)), ExceptT.run_bind]
    rcases (headerCode header).run with reason | (e | expected)
    · simp [bind, Except.bind]
    · simp [bind, Except.bind, pure, Except.pure]
    · change (if (config.secrets.any fun key => Mac.code key.secret
        (buildPayload timestamp body) == expected) = true then _
        else _ : Panicking SigningError Unit).run = _ ↔ _
      split
      · rename_i hany
        simp only [any_eq_true, beq_iff_eq] at hany
        obtain ⟨key, hkey, rfl⟩ := hany
        exact iff_of_true rfl ⟨key, hkey, rfl⟩
      · rename_i hnone
        refine iff_of_false (fun h => by cases h) ?_
        rintro ⟨key, hkey, heq⟩
        cases heq
        exact hnone (any_eq_true.mpr ⟨key, hkey, beq_self_eq_true _⟩)

/-- What is signed with a key of the server is accepted as long as its time is
near the clock, whichever other keys there are. -/
theorem accepted_signRequest_iff {key : SigningKey}
    (hkey : key ∈ config.secrets) :
    Accepted config now (signRequest key.secret timestamp body) timestamp body ↔
      ∀ ts ∈ timestamp, absDiff now ts ≤ config.maxAgeSecs.toNat := by
  have henabled : config.isEnabled = true := by
    simp [SigningConfig.isEnabled, ne_nil_of_mem hkey]
  rw [accepted_iff henabled]
  exact and_iff_left ⟨key, hkey, headerCode_signRequest _ _ _⟩

/-- A request that has to be signed goes on only if its signature is accepted
for its body and the time it names. -/
theorem accepted_of_forward (henabled : config.isEnabled = true)
    {req : SignedRequest}
    (hpath : req.path ∉ unsignedPaths) (hpost : req.isPost = true)
    (h : signingMiddleware (some config) now req = .ok .forward) :
    ∃ sig, req.signature = some sig ∧
    Accepted config now sig req.time req.body := by
  simp only [signingMiddleware, henabled, hpost, Bool.not_true,
    Bool.false_eq_true, if_false, if_neg hpath] at h
  split at h
  · cases h
  split at h
  · cases h
  rename_i sig hsig
  refine ⟨sig, hsig, ?_⟩
  unfold Accepted
  rcases hverify : (verifySignature config now sig req.time req.body).run
    with reason | (e | u)
  · rw [hverify] at h
    cases h
  · rw [hverify] at h
    cases h
  · rfl

end Requests

section Calls

variable [PerfectMac]

/-! ## What clients have signed -/

/-- The calls of `sign_request`: a secret, a time if there is one, a body. -/
abbrev SigningCalls := Set (Bytes × Option UInt64 × Bytes)

def Signed (calls : SigningCalls) (timestamp : Option UInt64) (body : Bytes) :
    Prop :=
  ∃ secret, (secret, timestamp, body) ∈ calls

/-- A code under a secret of the server is known only if a client made it. -/
def Obtainable (config : SigningConfig) (calls : SigningCalls) (header : Str) :
    Prop :=
  ∀ key ∈ config.secrets, ∀ message, (headerCode header).run =
      .ok (.ok (Mac.code key.secret message)) →
    ∃ timestamp body, (key.secret, timestamp, body) ∈ calls ∧
      buildPayload timestamp body = message

theorem obtainable_signRequest {calls : SigningCalls} {secret : Bytes}
    (h : (secret, timestamp, body) ∈ calls) :
    Obtainable config calls (signRequest secret timestamp body) := by
  intro key _ message hcode
  rw [headerCode_signRequest] at hcode
  have heq := Except.ok.inj (Except.ok.inj hcode)
  obtain ⟨rfl, rfl⟩ := PerfectMac.code_injective heq
  exact ⟨timestamp, body, h, rfl⟩

def OnlySigned (config : SigningConfig) (calls : SigningCalls) : Prop :=
  ∀ now header timestamp body, Obtainable config calls header →
    Accepted config now header timestamp body → Signed calls timestamp body

def NoReplay (config : SigningConfig) (calls : SigningCalls) : Prop :=
  ∀ secret ts body, (secret, some ts, body) ∈ calls →
    ∀ now : UInt64, config.maxAgeSecs.toNat < absDiff now ts →
      ∀ timestamp body', ¬Accepted config now
      (signRequest secret (some ts) body) timestamp body'

/-- What was signed is signed in its other reading too, and a window that ends
was not asked for. -/
def Unambiguous (config : SigningConfig) (calls : SigningCalls) : Prop :=
  ∀ key ∈ config.secrets, ∀ ts body, ((key.secret, some ts, body) ∈ calls →
      Signed calls none (buildPayload (some ts) body) ∧
        ∀ now : UInt64, absDiff now ts ≤ config.maxAgeSecs.toNat) ∧
    ((key.secret, none, buildPayload (some ts) body) ∈ calls →
      Signed calls (some ts) body)

variable {calls : SigningCalls}

theorem onlySigned_of_unambiguous (henabled : config.isEnabled = true)
    (h : Unambiguous config calls) : OnlySigned config calls := by
  intro now header timestamp body hheader haccepted
  obtain ⟨-, key, hkey, hcode⟩ := (accepted_iff henabled).mp haccepted
  obtain ⟨timestamp', body', hcall, hpayload⟩ := hheader key hkey _ hcode
  rcases buildPayload_cases hpayload.symm with
    ⟨rfl, rfl⟩ | ⟨ts, rfl, rfl, rfl⟩ | ⟨ts, rfl, rfl, rfl⟩
  · exact ⟨key.secret, hcall⟩
  · exact ((h key hkey ts body').1 hcall).1
  · exact (h key hkey ts body).2 hcall

theorem noReplay_of_unambiguous (henabled : config.isEnabled = true)
    (h : Unambiguous config calls) : NoReplay config calls := by
  intro secret ts body hcall now hlate timestamp body' haccepted
  obtain ⟨-, key, hkey, hcode⟩ := (accepted_iff henabled).mp haccepted
  rw [headerCode_signRequest] at hcode
  obtain ⟨rfl, -⟩ := PerfectMac.code_injective
    (Except.ok.inj (Except.ok.inj hcode))
  exact Nat.not_lt.mpr (((h key hkey ts body).1 hcall).2 now) hlate

/-- A payload is accepted in either reading, in the one with a time at that
time and in the other at any. -/
theorem accepted_reading (henabled : config.isEnabled = true) {key : SigningKey}
    (hkey : key ∈ config.secrets) {timestamp timestamp' : Option UInt64}
    {body body' : Bytes}
    (hpayload : buildPayload timestamp' body' = buildPayload timestamp body)
    (hfresh : ∀ ts ∈ timestamp', absDiff now ts ≤ config.maxAgeSecs.toNat) :
    Accepted config now (signRequest key.secret timestamp body) timestamp'
    body' := by
  refine (accepted_iff henabled).mpr ⟨hfresh, key, hkey, ?_⟩
  rw [headerCode_signRequest, hpayload]

/-- Requests are accepted only as they were signed, and timed ones not after
their window, exactly if what was signed has no second reading that was not. -/
theorem signed_requests_iff :
    (config.isEnabled = true → OnlySigned config calls ∧
      NoReplay config calls) ↔ Unambiguous config calls := by
  constructor
  · intro h key hkey ts body
    have henabled : config.isEnabled = true := by
      rw [SigningConfig.isEnabled, Bool.not_eq_true']
      cases hsecrets : config.secrets with
      | nil =>
        rw [hsecrets] at hkey
        cases hkey
      | cons first rest => rfl
    obtain ⟨honly, hreplay⟩ := h henabled
    refine ⟨fun hcall => ⟨?_, fun now => ?_⟩, fun hcall => ?_⟩
    · refine honly ts _ none _ (obtainable_signRequest hcall) ?_
      exact accepted_reading henabled hkey rfl (by simp)
    · by_contra hlate
      refine hreplay _ ts body hcall now (Nat.lt_of_not_le hlate) none
        (buildPayload (some ts) body) ?_
      exact accepted_reading henabled hkey rfl (by simp)
    · refine honly ts _ (some ts) body (obtainable_signRequest hcall) ?_
      exact accepted_reading henabled hkey rfl (by simp [absDiff])
  · intro h henabled
    exact ⟨onlySigned_of_unambiguous henabled h,
      noReplay_of_unambiguous henabled h⟩

end Calls

/-! ## A replay -/

def spelledCode (secret message : Bytes) : Bytes :=
  secret.flatMap (fun b => [1, b]) ++ 0 :: message

theorem spelledCode_injective {secret secret' message message' : Bytes}
    (h : spelledCode secret message = spelledCode secret' message') :
    secret = secret' ∧ message = message' := by
  induction secret generalizing secret' with
  | nil =>
    cases secret' with
    | nil => exact ⟨rfl, (List.cons.inj h).2⟩
    | cons b secret' => cases (List.cons.inj h).1
  | cons b secret ih =>
    cases secret' with
    | nil => cases (List.cons.inj h).1
    | cons b' secret' =>
      have htail := List.cons.inj (List.cons.inj h).2
      obtain ⟨rfl, rfl⟩ := ih htail.2
      exact ⟨by rw [htail.1], rfl⟩

@[reducible] def spelledMac : PerfectMac where
  code := spelledCode
  code_injective := spelledCode_injective

attribute [local instance] spelledMac

def oneSecret : SigningConfig := ⟨[⟨"k1", [107]⟩], 300⟩

def twoSecrets : SigningConfig := ⟨[⟨"k0", []⟩, ⟨"k1", [107]⟩], 300⟩

theorem second_key_accepted :
    Accepted twoSecrets 1200 (signRequest [107] (some 1000) [104, 105])
    (some 1000) [104, 105] := by
  have hkey : (⟨"k1", [107]⟩ : SigningKey) ∈ twoSecrets.secrets := by
    simp [twoSecrets]
  refine (accepted_signRequest_iff hkey).mpr ?_
  rintro _ ⟨⟩
  decide

/-- The only request that was signed: `hi` at time 1000. -/
def timedCall : SigningCalls := {([107], some 1000, [104, 105])}

/-- A million seconds later the request is refused with its time, and accepted
without it, with the body `1000.hi` that nobody signed. -/
theorem captured_request_replayed :
    (verifySignature oneSecret 1000000
      (signRequest [107] (some 1000) [104, 105])
        (some 1000) [104, 105]).run = .ok (.error .expired) ∧
    Accepted oneSecret 1000000 (signRequest [107] (some 1000) [104, 105]) none
        [49, 48, 48, 48, 46, 104, 105] ∧
    signingMiddleware (some oneSecret) 1000000 ⟨"/api/fuse/query", true,
        some (signRequest [107] (some 1000) [104, 105]), none,
        [49, 48, 48, 48, 46, 104, 105]⟩ = .ok .forward ∧
    ¬Signed timedCall none [49, 48, 48, 48, 46, 104, 105] ∧
    ¬NoReplay oneSecret timedCall := by
  have haccepted : Accepted oneSecret 1000000
    (signRequest [107] (some 1000) [104, 105]) none
      [49, 48, 48, 48, 46, 104, 105] := by
    unfold Accepted
    decide +kernel
  refine ⟨by decide +kernel, haccepted, by decide +kernel, ?_, ?_⟩
  · rintro ⟨secret, hcall⟩
    cases hcall
  · intro h
    exact h [107] 1000 [104, 105] rfl 1000000 (by decide) none _ haccepted

end Fuse.Server
