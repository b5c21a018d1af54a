import Fuse.Foundation.IpAddress

/-!
# Callback URLs

The check a webhook's URL has to pass, when it is registered and again before
each delivery (`url_validator.rs`).  It looks the host up among two names and,
if the host is the text of an address, among the reserved ranges; of an IPv6
address only the loopback and the unspecified one are among those.
-/

namespace Fuse.Server

open Foundation List

/-- A host as the `url` crate holds it: what could be read as an address, in
whatever notation, is one. -/
inductive Host where
  | domain (name : Str)
  | ipv4 (addr : Ipv4Addr)
  | ipv6 (addr : Ipv6Addr)
  deriving DecidableEq, Repr

structure Url where
  scheme : Str
  host : Option Host
  deriving DecidableEq, Repr

class UrlParser where
  parse : Str → Except Str Url

def Host.text : Host → Str
  | .domain name => name
  | .ipv4 addr => addr.text
  | .ipv6 addr => '[' :: (addr.text ++ [']'])

def Url.hostStr (url : Url) : Option Str := url.host.map Host.text

def isPrivateIp : IpAddr → Bool
  | .v4 v4 =>
    v4.isLoopback || v4.isPrivate || v4.isLinkLocal || v4.isUnspecified ||
      v4.isBroadcast
  | .v6 v6 => v6.isLoopback || v6.isUnspecified

def bareHost (host : Str) : Str :=
  match host with
  | '[' :: rest => if rest.getLast? = some ']' then rest.dropLast else host
  | _ => host

def blockedIp (host : Str) : Option IpAddr :=
  (parseIpAddr (bareHost host)).filter isPrivateIp

def validateCallbackUrl [Unicode] [UrlParser] (url : Str) : Except Str Unit :=
  match UrlParser.parse url with
  | .error e => .error (("invalid URL: " : Str) ++ e)
  | .ok parsed =>
    if parsed.scheme ≠ "http" ∧ parsed.scheme ≠ "https" then
      .error (("scheme '" : Str) ++ parsed.scheme ++
        ("' not allowed (use http or https)" : Str))
    else
      match parsed.hostStr with
      | none => .error "URL must have a host"
      | some host =>
        let lower := toLowercase host
        if lower = "localhost" ∨ lower = "metadata.google.internal" then
          .error (("host '" : Str) ++ host ++ ("' is blocked" : Str))
        else
          match blockedIp host with
          | some ip =>
            .error (("private/reserved IP '" : Str) ++ ip.text ++
              ("' is blocked" : Str))
          | none =>
            if host = "169.254.169.254" ∨ host = "fd00:ec2::254" then
              .error "cloud metadata endpoint is blocked"
            else .ok ()

def Host.ip : Host → Option IpAddr
  | .domain _ => none
  | .ipv4 addr => some (.v4 addr)
  | .ipv6 addr => some (.v6 addr)

def metadataV4 : Ipv4Addr := ⟨169, 254, 169, 254⟩

def metadataV6 : Ipv6Addr := ⟨[0xfd00, 0xec2, 0, 0, 0, 0, 0, 0x254], rfl⟩

def InternalV4 (v4 : Ipv4Addr) : Prop :=
  v4.isLoopback = true ∨ v4.isPrivate = true ∨ v4.isLinkLocal = true ∨
    v4.isUnspecified = true ∨ v4.isBroadcast = true ∨ v4 = metadataV4

def UnguardedV6 (v6 : Ipv6Addr) : Prop :=
  v6.isUniqueLocal = true ∨ v6.isUnicastLinkLocal = true ∨
    ∃ v4, v6.toIpv4Mapped = some v4 ∧ InternalV4 v4

def InternalV6 (v6 : Ipv6Addr) : Prop :=
  v6.isLoopback = true ∨ v6.isUnspecified = true ∨ v6 = metadataV6 ∨
    UnguardedV6 v6

def Internal : IpAddr → Prop
  | .v4 v4 => InternalV4 v4
  | .v6 v6 => InternalV6 v6

def Unguarded : IpAddr → Prop
  | .v4 _ => False
  | .v6 v6 => UnguardedV6 v6

instance (v4 : Ipv4Addr) : Decidable (InternalV4 v4) :=
  inferInstanceAs (Decidable (_ ∨ _))

theorem isPrivateIp_v4 (v4 : Ipv4Addr) :
    isPrivateIp (.v4 v4) = true ↔ InternalV4 v4 := by
  have hmetadata : v4 = metadataV4 → v4.isLinkLocal = true := by
    rintro rfl
    rfl
  simp only [isPrivateIp, InternalV4, Bool.or_eq_true]
  tauto

theorem internal_iff (ip : IpAddr) :
    Internal ip ↔ isPrivateIp ip = true ∨ Unguarded ip := by
  cases ip with
  | v4 v4 => simp [Internal, Unguarded, isPrivateIp_v4]
  | v6 v6 =>
    have hmetadata : v6 = metadataV6 → v6.isUniqueLocal = true := by
      rintro rfl
      rfl
    simp only [Internal, InternalV6, isPrivateIp, Unguarded, UnguardedV6,
      Bool.or_eq_true]
    tauto

theorem not_unguardedV6 {v6 : Ipv6Addr}
    (hunique : v6.segments.headD 0 &&& 0xfe00 ≠ 0xfc00)
    (hlink : v6.segments.headD 0 &&& 0xffc0 ≠ 0xfe80)
    (hmapped : v6.toIpv4Mapped = none) : ¬UnguardedV6 v6 := by
  rintro (h | h | ⟨v4, h, -⟩)
  · exact hunique (beq_iff_eq.mp h)
  · exact hlink (beq_iff_eq.mp h)
  · rw [hmapped] at h
    cases h

theorem Unguarded.isPrivateIp_eq {ip : IpAddr} (h : Unguarded ip) :
    isPrivateIp ip = false := by
  cases ip with
  | v4 v4 => exact h.elim
  | v6 v6 =>
    obtain ⟨segments, hlength⟩ := v6
    by_contra hprivate
    have hsegments : segments = [0, 0, 0, 0, 0, 0, 0, 1] ∨
        segments = [0, 0, 0, 0, 0, 0, 0, 0] := by
      rw [Bool.not_eq_false, isPrivateIp, Bool.or_eq_true] at hprivate
      simpa [Ipv6Addr.isLoopback, Ipv6Addr.isUnspecified] using hprivate
    rcases hsegments with rfl | rfl
    · exact not_unguardedV6 (by simp) (by simp) rfl h
    · exact not_unguardedV6 (by simp) (by simp) rfl h

theorem bareHost_ipv4 (v4 : Ipv4Addr) : bareHost v4.text = v4.text := by
  rw [Ipv4Addr.text, map_cons, Str.joinWith_cons]
  cases hdigits : Str.ofNat v4.a.toNat with
  | nil => exact absurd hdigits Nat.toDigits_ne_nil
  | cons c digits =>
    have hbracket : c ≠ '[' := by
      rintro rfl
      exact Str.ofNat_ne_cons (by decide) _ _ hdigits
    unfold bareHost
    split
    · next heq => exact absurd (List.cons.inj heq).1 hbracket
    · rfl

private theorem bareHost_ipv6 (v6 : Ipv6Addr) :
    bareHost (Host.ipv6 v6).text = v6.text := by
  simp [Host.text, bareHost]

theorem blockedIp_text {host : Host} {ip : IpAddr} (h : host.ip = some ip) :
    blockedIp host.text = if isPrivateIp ip then some ip else none := by
  have hparse : parseIpAddr (bareHost host.text) = some ip := by
    cases host with
    | domain name => cases h
    | ipv4 addr =>
      cases h
      rw [Host.text, bareHost_ipv4]
      exact parseIpAddr_text (.v4 addr)
    | ipv6 addr =>
      cases h
      rw [bareHost_ipv6]
      exact parseIpAddr_text (.v6 addr)
  rw [blockedIp, hparse]
  rfl

theorem toLowercase_ipv6 [Unicode] (v6 : Ipv6Addr) :
    ∃ rest, toLowercase (Host.ipv6 v6).text = '[' :: rest := by
  have hascii : ∀ c ∈ (Host.ipv6 v6).text, c.toNat < 128 := by
    intro c hc
    rcases mem_cons.mp hc with rfl | hc
    · decide
    rcases mem_append.mp hc with hc | hc
    · exact isGroupChar_ascii (isGroupChar_text v6 c hc)
    · rw [mem_singleton.mp hc]
      decide
  exact ⟨_, Unicode.toLowercase_ascii _ hascii⟩

section Accepted

variable [Unicode] [UrlParser] {url : Str} {parsed : Url} {host : Host}
  {ip : IpAddr}

def Url.isWeb (url : Url) : Prop := url.scheme = "http" ∨ url.scheme = "https"

theorem isWeb_of_accepted (hparse : UrlParser.parse url = .ok parsed)
    (h : validateCallbackUrl url = .ok ()) : parsed.isWeb := by
  simp only [validateCallbackUrl, hparse] at h
  split at h
  · cases h
  · rename_i hweb
    unfold Url.isWeb
    tauto

theorem isPrivateIp_of_accepted (hparse : UrlParser.parse url = .ok parsed)
    (hhost : parsed.host = some host) (hip : host.ip = some ip)
    (h : validateCallbackUrl url = .ok ()) : isPrivateIp ip = false := by
  simp only [validateCallbackUrl, hparse, Url.hostStr, hhost, Option.map_some,
    blockedIp_text hip] at h
  by_contra hprivate
  rw [Bool.not_eq_false] at hprivate
  rw [if_pos hprivate] at h
  split at h
  · cases h
  · split at h <;> cases h

private theorem accepted_ipv6 {v6 : Ipv6Addr}
    (hparse : UrlParser.parse url = .ok parsed)
    (hhost : parsed.host = some (.ipv6 v6)) (hweb : parsed.isWeb)
    (hpublic : isPrivateIp (.v6 v6) = false) :
    validateCallbackUrl url = .ok () := by
  have hscheme : ¬(parsed.scheme ≠ "http" ∧ parsed.scheme ≠ "https") := by
    unfold Url.isWeb at hweb
    tauto
  have hblocked : blockedIp (Host.ipv6 v6).text = none := by
    have hip : (Host.ipv6 v6).ip = some (.v6 v6) := rfl
    rw [blockedIp_text hip, hpublic]
    rfl
  obtain ⟨rest, hlower⟩ := toLowercase_ipv6 v6
  simp only [validateCallbackUrl, hparse, Url.hostStr, hhost, Option.map_some,
    if_neg hscheme, hlower, hblocked]
  rw [if_neg (by simp), if_neg (by simp [Host.text])]

/-- A callback URL whose host is an address does not reach an internal one
unless it is a web URL with an IPv6 address in one of the ranges that the check
leaves out. -/
theorem callback_external_iff (hparse : UrlParser.parse url = .ok parsed)
    (hhost : parsed.host = some host) (hip : host.ip = some ip) :
    (validateCallbackUrl url = .ok () → ¬Internal ip) ↔
    ¬(parsed.isWeb ∧ Unguarded ip) := by
  constructor
  · rintro hsafe ⟨hweb, hunguarded⟩
    have hpublic := hunguarded.isPrivateIp_eq
    cases host with
    | domain name => cases hip
    | ipv4 addr =>
      cases hip
      exact hunguarded
    | ipv6 addr =>
      cases hip
      have haccepted := accepted_ipv6 hparse hhost hweb hpublic
      exact hsafe haccepted ((internal_iff _).mpr (.inr hunguarded))
  · intro hguarded haccepted hinternal
    rcases (internal_iff ip).mp hinternal with hprivate | hunguarded
    · rw [isPrivateIp_of_accepted hparse hhost hip haccepted] at hprivate
      cases hprivate
    · exact hguarded ⟨isWeb_of_accepted hparse haccepted, hunguarded⟩

end Accepted

@[reducible] def tableUrls (known : List (Str × Url)) : UrlParser where
  parse url := (known.lookup url).elim
    (.error "relative URL without a base") .ok

def publicAddr : Ipv6Addr := ⟨[0x2606, 0x4700, 0, 0, 0, 0, 0, 0x1111], rfl⟩

def mappedLoopback : Ipv6Addr := ⟨[0, 0, 0, 0, 0, 0xffff, 0x7f00, 1], rfl⟩

@[reducible] def webhookUrls : UrlParser := tableUrls
  [("https://[2606:4700::1111]/hook", ⟨"https", some (.ipv6 publicAddr)⟩),
    ("http://[::ffff:127.0.0.1]/", ⟨"http", some (.ipv6 mappedLoopback)⟩),
    ("http://[fd00:ec2::254]/latest/", ⟨"http", some (.ipv6 metadataV6)⟩)]

attribute [local instance] asciiUnicode webhookUrls

theorem public_callback_external :
    validateCallbackUrl "https://[2606:4700::1111]/hook" = .ok () ∧
    ¬Internal (.v6 publicAddr) := by
  have haccepted : validateCallbackUrl "https://[2606:4700::1111]/hook" =
      .ok () := by
    decide +kernel
  have hguarded : ¬Unguarded (.v6 publicAddr) :=
    not_unguardedV6 (by decide) (by decide) rfl
  have hip : (Host.ipv6 publicAddr).ip = some (.v6 publicAddr) := rfl
  exact ⟨haccepted, (callback_external_iff rfl rfl hip).mpr
    (fun h => hguarded h.2) haccepted⟩

/-- The loopback address is reached in its IPv4-mapped form, and the metadata
service by its IPv6 address: the text it is compared with has no brackets. -/
theorem internal_callbacks_accepted :
    (validateCallbackUrl "http://[::ffff:127.0.0.1]/" = .ok () ∧
      Internal (.v6 mappedLoopback)) ∧
    validateCallbackUrl "http://[fd00:ec2::254]/latest/" = .ok () ∧
        Internal (.v6 metadataV6) := by
  have hmapped : Internal (.v6 mappedLoopback) :=
    .inr (.inr (.inr (.inr (.inr ⟨⟨127, 0, 0, 1⟩, rfl, by decide⟩))))
  exact ⟨⟨by decide +kernel, hmapped⟩, by decide +kernel,
    .inr (.inr (.inl rfl))⟩

end Fuse.Server
