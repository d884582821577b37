/-
  FlowHelm.Proxy.CertCache — cert-cache.ts, the validity that ca-manager.ts gives a host
  certificate, and which certificate a MITM CONNECT is answered with.

  The cache is a Map in insertion order, the least recently used first. A certificate is its
  validity period; the day arithmetic of `setDate` goes by the time zone of the process.

  - `presents_valid`: the certificates presented are valid just if no entry that the cache
    still serves was stored more than seven days ago.
  - `an_expired_certificate_is_presented`: eight days after the first CONNECT to a host.
-/
import FlowHelm.Proxy.RateBound

namespace FlowHelm.Proxy

open Js Runs

/-! ## The cache -/

structure CertCacheEntry (T : Type) where
  value : T
  expiresAt : Nat

structure CertCache (T : Type) where
  cache : List (JsString × CertCacheEntry T)
  maxEntries : Nat
  ttlMs : Nat

namespace CertCache

variable {T : Type}

def dayMs : Nat := 24 * 60 * 60 * 1000

/-- `new CertCache()`. -/
def new : CertCache T := ⟨[], 200, 30 * dayMs⟩

/-- `this.cache.get(key)`. -/
def entry? (c : CertCache T) (key : JsString) : Option (CertCacheEntry T) := c.cache.lookup key

/-- `this.cache.delete(key)`. -/
def delete (c : CertCache T) (key : JsString) : CertCache T := { c with cache := c.cache.filter (·.1 != key) }

def get (c : CertCache T) (now : Nat) (key : JsString) : CertCache T × Option T :=
  match c.entry? key with
  | none => (c, none)
  | some entry =>
    if entry.expiresAt < now then (c.delete key, none)
    else ({ c with cache := (c.delete key).cache ++ [(key, entry)] }, some entry.value)

def set (c : CertCache T) (now : Nat) (key : JsString) (value : T) : CertCache T :=
  let kept := (c.delete key).cache
  let kept := if c.maxEntries ≤ kept.length then kept.drop 1 else kept
  { c with cache := kept ++ [(key, ⟨value, now + c.ttlMs⟩)] }

def getOrCreate (c : CertCache T) (now : Nat) (key : JsString) (generator : JsString → T) : CertCache T × T :=
  match c.get now key with
  | (c, some cached) => (c, cached)
  | (c, none) => (c.set now key (generator key), generator key)

def has (c : CertCache T) (now : Nat) (key : JsString) : CertCache T × Bool :=
  match c.entry? key with
  | none => (c, false)
  | some entry => if entry.expiresAt < now then (c.delete key, false) else (c, true)

def size (c : CertCache T) : Nat := c.cache.length

/-- What `get` returns. -/
def fresh? (c : CertCache T) (now : Nat) (key : JsString) : Option T :=
  (c.entry? key).bind fun entry => if entry.expiresAt < now then none else some entry.value

theorem get_value (c : CertCache T) (now : Nat) (key : JsString) : (c.get now key).2 = c.fresh? now key := by
  unfold get fresh?
  cases c.entry? key with
  | none => rfl
  | some entry =>
    dsimp only [Option.bind_some]
    split
    · rfl
    · rfl

theorem getOrCreate_value (c : CertCache T) (now : Nat) (key : JsString) (generator : JsString → T) :
    (c.getOrCreate now key generator).2 = (c.fresh? now key).getD (generator key) := by
  rw [← get_value]
  unfold getOrCreate
  obtain ⟨d, value⟩ := c.get now key
  cases value with
  | none => rfl
  | some value => rfl

/-- When an entry was stored. -/
def storedAt (c : CertCache T) (entry : CertCacheEntry T) : Nat := entry.expiresAt - c.ttlMs

theorem fresh?_eq_some {c : CertCache T} {now : Nat} {key : JsString} {value : T} :
    c.fresh? now key = some value ↔ ∃ entry, c.entry? key = some entry ∧ now ≤ entry.expiresAt ∧ entry.value = value := by
  unfold fresh?
  rw [Option.bind_eq_some_iff]
  refine exists_congr fun entry => and_congr_right fun _ => ?_
  by_cases hexpired : entry.expiresAt < now
  · rw [if_pos hexpired]
    exact ⟨fun h => (by cases h), fun h => absurd h.1 (Nat.not_le.mpr hexpired)⟩
  · rw [if_neg hexpired, Option.some.injEq]
    exact ⟨fun h => ⟨Nat.not_lt.mp hexpired, h⟩, fun h => h.2⟩

theorem getOrCreate_ttlMs (c : CertCache T) (now : Nat) (key : JsString) (generator : JsString → T) :
    (c.getOrCreate now key generator).1.ttlMs = c.ttlMs := by
  have hget : (c.get now key).1.ttlMs = c.ttlMs := by
    unfold get
    cases c.entry? key with
    | none => rfl
    | some entry =>
      dsimp only
      split
      · rfl
      · rfl
  unfold getOrCreate
  cases hr : c.get now key with
  | mk d value =>
    rw [hr] at hget
    cases value with
    | none => exact hget
    | some value => exact hget

/-- Every entry held meets `P`. -/
def All (P : CertCacheEntry T → Prop) (c : CertCache T) : Prop := ∀ x ∈ c.cache, P x.2

variable {P : CertCacheEntry T → Prop} {c : CertCache T}

theorem All.entry (h : c.All P) {key : JsString} {entry : CertCacheEntry T} (he : c.entry? key = some entry) : P entry := by
  obtain ⟨before, after, hcache, -⟩ := List.lookup_eq_some_iff.mp he
  refine h (key, entry) ?_
  rw [hcache]
  exact List.mem_append_right _ (List.mem_cons_self ..)

theorem All.delete (h : c.All P) (key : JsString) : (c.delete key).All P := fun x hx => h x (List.mem_filter.mp hx).1

theorem All.get (h : c.All P) (now : Nat) (key : JsString) : (c.get now key).1.All P := by
  unfold CertCache.get
  cases he : c.entry? key with
  | none => exact h
  | some entry =>
    dsimp only
    by_cases hexpired : entry.expiresAt < now
    · rw [if_pos hexpired]
      exact h.delete key
    · rw [if_neg hexpired]
      intro x hx
      rcases List.mem_append.mp hx with hx | hx
      · exact h.delete key x hx
      · rw [List.mem_singleton.mp hx]
        exact h.entry he

theorem All.set (h : c.All P) {now ttlMs : Nat} (key : JsString) {value : T} (httl : c.ttlMs = ttlMs)
    (hv : P ⟨value, now + ttlMs⟩) : (c.set now key value).All P := by
  intro x hx
  rcases List.mem_append.mp hx with hx | hx
  · have hkept : x ∈ (c.delete key).cache := by
      split at hx
      · exact List.mem_of_mem_drop hx
      · exact hx
    exact h.delete key x hkept
  · rw [List.mem_singleton.mp hx, httl]
    exact hv

theorem All.getOrCreate (h : c.All P) (now : Nat) (key : JsString) {generator : JsString → T}
    (hg : P ⟨generator key, now + c.ttlMs⟩) : (c.getOrCreate now key generator).1.All P := by
  have hget := h.get now key
  have httl := c.getOrCreate_ttlMs now key generator
  unfold CertCache.getOrCreate at httl ⊢
  cases hr : c.get now key with
  | mk d value =>
    rw [hr] at hget httl
    cases value with
    | none => exact hget.set key httl hg
    | some value => exact hget

end CertCache

/-! ## Host certificates -/

/-- The time zone of the process: what makes of a time its local time, and back. -/
structure TimeZone where
  added : Int → Int
  taken : Int → Int
  within : ∀ t, |added t| < CertCache.dayMs ∧ |taken t| < CertCache.dayMs

/-- `date.setDate(date.getDate() + days)`: the same time of the local day. -/
def TimeZone.addDays (zone : TimeZone) (t : Int) (days : Nat) : Int :=
  let localTime := t + zone.added t + days * CertCache.dayMs
  localTime - zone.taken localTime

/-- The validity of a HostCertificate. -/
structure HostCertificate where
  notBefore : Int
  notAfter : Int
  deriving DecidableEq

def generateHostCert (zone : TimeZone) (now : Nat) : HostCertificate := ⟨now, zone.addDays now 7⟩

def HostCertificate.ValidAt (cert : HostCertificate) (now : Nat) : Prop := cert.notBefore ≤ now ∧ now ≤ cert.notAfter

instance (cert : HostCertificate) (now : Nat) : Decidable (cert.ValidAt now) := inferInstanceAs (Decidable (_ ∧ _))

theorem generateHostCert_valid (zone : TimeZone) (now : Nat) : (generateHostCert zone now).ValidAt now := by
  obtain ⟨hadded, -⟩ := zone.within now
  obtain ⟨-, htaken⟩ := zone.within (now + zone.added now + 7 * CertCache.dayMs)
  rw [abs_lt] at hadded htaken
  refine ⟨le_refl _, ?_⟩
  show (now : Int) ≤ now + zone.added now + 7 * CertCache.dayMs - zone.taken (now + zone.added now + 7 * CertCache.dayMs)
  unfold CertCache.dayMs at *
  omega

/-! ## The proxy with its certificates -/

/-- One CONNECT that was answered with a certificate. -/
structure Presented where
  time : Nat
  hostname : JsString
  cert : HostCertificate
  deriving DecidableEq

structure TlsSt where
  proxy : St
  certCache : CertCache HostCertificate
  presented : List Presented

/-- The tunnel that an event opens with a certificate. -/
def intercepts (s : St) : Ev → Option Tunnel
  | .connect now target => match (s.server.handleConnect now target).2 with
    | .mitm tunnel => some tunnel
    | _ => none
  | _ => none

variable (hosts : Url.HostParser) (zone : TimeZone)

/-- What MitmHandler.handleConnect presents. -/
def TlsSt.terminate (s : TlsSt) (now : Nat) (hostname : JsString) : CertCache HostCertificate × HostCertificate :=
  s.certCache.getOrCreate now hostname fun _ => generateHostCert zone now

def TlsSt.step (s : TlsSt) (e : Ev) : Option TlsSt :=
  (Proxy.step hosts s.proxy e).map fun t => match intercepts s.proxy e with
    | some tunnel =>
      let r := s.terminate zone e.time tunnel.hostname
      ⟨t, r.1, s.presented ++ [⟨e.time, tunnel.hostname, r.2⟩]⟩
    | none => { s with proxy := t }

/-- The proxy from its start, with a CA. -/
def tlsProxy (activeCredentialMethod : Option CredentialMethod) (rules : CredentialRules) : System TlsSt Ev :=
  ⟨⟨(proxy hosts true activeCredentialMethod rules).init, .new, []⟩, TlsSt.step hosts zone⟩

/-- Every certificate was presented within its period. -/
def AlwaysValid (s : TlsSt) : Prop := ∀ p ∈ s.presented, p.cert.ValidAt p.time

/-- An entry for the host that is still served was stored at most seven days ago. -/
def Timely (s : TlsSt) (e : Ev) : Prop :=
  ∀ tunnel, intercepts s.proxy e = some tunnel → ∀ entry, s.certCache.entry? tunnel.hostname = some entry →
    e.time ≤ entry.expiresAt → e.time ≤ zone.addDays (s.certCache.storedAt entry) 7

variable {hosts zone}

/-- What a step does. -/
theorem tls_step {s t : TlsSt} {e : Ev} (h : s.step hosts zone e = some t) :
    Proxy.step hosts s.proxy e = some t.proxy ∧
      (intercepts s.proxy e = none ∧ t.certCache = s.certCache ∧ t.presented = s.presented ∨
        ∃ tunnel, intercepts s.proxy e = some tunnel ∧ t.certCache = (s.terminate zone e.time tunnel.hostname).1 ∧
          t.presented = s.presented ++ [⟨e.time, tunnel.hostname, (s.terminate zone e.time tunnel.hostname).2⟩]) := by
  obtain ⟨p, hp, rfl⟩ := Option.map_eq_some_iff.mp h
  cases htunnel : intercepts s.proxy e with
  | none => exact ⟨hp, .inl ⟨rfl, rfl, rfl⟩⟩
  | some tunnel => exact ⟨hp, .inr ⟨tunnel, rfl, rfl, rfl⟩⟩

/-- Holds the certificate made when it was stored, which was by now. -/
def StoredBy (zone : TimeZone) (ttlMs now : Nat) (entry : CertCacheEntry HostCertificate) : Prop :=
  ∃ stored ≤ now, entry = ⟨generateHostCert zone stored, stored + ttlMs⟩

def TlsSt.Stored (zone : TimeZone) (s : TlsSt) : Prop := s.certCache.All (StoredBy zone s.certCache.ttlMs s.proxy.now)

theorem stored_step {s t : TlsSt} {e : Ev} (h : s.Stored zone) (hs : s.step hosts zone e = some t) : t.Stored zone := by
  obtain ⟨hproxy, hcase⟩ := tls_step hs
  obtain ⟨htime, hnow, -⟩ := step_moved hproxy
  have hstored : s.certCache.All (StoredBy zone s.certCache.ttlMs e.time) := by
    intro x hx
    obtain ⟨stored, hle, hentry⟩ := h x hx
    exact ⟨stored, le_trans hle htime, hentry⟩
  unfold TlsSt.Stored
  rcases hcase with ⟨-, hcache, -⟩ | ⟨tunnel, -, hcache, -⟩
  · rw [hcache, hnow]
    exact hstored
  · rw [hcache, hnow, TlsSt.terminate, CertCache.getOrCreate_ttlMs]
    exact hstored.getOrCreate e.time tunnel.hostname ⟨e.time, le_refl _, rfl⟩

/-- An entry's certificate ends seven days after the entry was stored. -/
theorem StoredBy.cert {now : Nat} {c : CertCache HostCertificate} {entry : CertCacheEntry HostCertificate}
    (h : StoredBy zone c.ttlMs now entry) :
    entry.value.notBefore ≤ now ∧ entry.value.notAfter = zone.addDays (c.storedAt entry) 7 := by
  obtain ⟨stored, hle, rfl⟩ := h
  refine ⟨Int.ofNat_le.mpr hle, ?_⟩
  rw [CertCache.storedAt, Nat.add_sub_cancel]
  rfl

/-- The certificate that a CONNECT is answered with is valid just if the CONNECT is timely. -/
theorem valid_iff {s t : TlsSt} {e : Ev} (h : s.Stored zone) (hv : AlwaysValid s) (hs : s.step hosts zone e = some t) :
    AlwaysValid t ↔ Timely zone s e := by
  obtain ⟨hproxy, hcase⟩ := tls_step hs
  obtain ⟨htime, -⟩ := step_moved hproxy
  rcases hcase with ⟨hnone, -, hsame⟩ | ⟨tunnel, htunnel, -, hmore⟩
  · refine ⟨fun _ tunnel htunnel => ?_, fun _ p hp => hv p (hsame ▸ hp)⟩
    rw [hnone] at htunnel
    cases htunnel
  · have hlast : AlwaysValid t ↔ (s.terminate zone e.time tunnel.hostname).2.ValidAt e.time := by
      unfold AlwaysValid
      rw [hmore, List.forall_mem_append, List.forall_mem_singleton]
      exact and_iff_right hv
    rw [hlast, TlsSt.terminate, CertCache.getOrCreate_value]
    cases hcached : s.certCache.fresh? e.time tunnel.hostname with
    | none =>
      refine iff_of_true (generateHostCert_valid zone e.time) fun tunnel' htunnel' entry hentry hserved => ?_
      obtain rfl := Option.some.inj (htunnel.symm.trans htunnel')
      rw [CertCache.fresh?_eq_some.mpr ⟨entry, hentry, hserved, rfl⟩] at hcached
      cases hcached
    | some cert =>
      obtain ⟨entry, hentry, hserved, rfl⟩ := CertCache.fresh?_eq_some.mp hcached
      obtain ⟨hpast, hends⟩ := (h.entry hentry).cert
      refine ⟨fun hvalid tunnel' htunnel' entry' hentry' _ => ?_, fun htimely => ⟨?_, ?_⟩⟩
      · obtain rfl := Option.some.inj (htunnel.symm.trans htunnel')
        obtain rfl := Option.some.inj (hentry.symm.trans hentry')
        rw [← hends]
        exact hvalid.2
      · exact le_trans hpast (Int.ofNat_le.mpr htime)
      · show (e.time : Int) ≤ entry.value.notAfter
        rw [hends]
        exact htimely tunnel htunnel entry hentry hserved

/-- In a run whose CONNECTs are all timely every certificate presented is valid; in any run a
    CONNECT that is not timely presents one that is over. -/
theorem presents_valid (hosts : Url.HostParser) (zone : TimeZone) (activeCredentialMethod : Option CredentialMethod)
    (rules : CredentialRules) :
    (∀ s, Reach (tlsProxy hosts zone activeCredentialMethod rules) (Timely zone) s → AlwaysValid s) ∧
      ∀ s, Reach (tlsProxy hosts zone activeCredentialMethod rules) Free s →
        ∀ e t, TlsSt.step hosts zone s e = some t → ¬Timely zone s e → ¬AlwaysValid t := by
  have hstored : ∀ s, Reach (tlsProxy hosts zone activeCredentialMethod rules) Free s → s.Stored zone := fun s hs =>
    hs.inv (I := TlsSt.Stored zone) (fun _ hx => absurd hx List.not_mem_nil) fun _ _ _ _ h _ hstep => stored_step h hstep
  constructor
  · intro s hs
    refine hs.inv (fun _ hp => absurd hp List.not_mem_nil) fun u e t hu hv hc hstep => ?_
    exact (valid_iff (hstored u (hu.mono fun _ _ _ => trivial)) hv hstep).mpr hc
  · intro s hs e t hstep hlate hvalid
    have hbefore : AlwaysValid s := by
      obtain ⟨-, ⟨-, -, hsame⟩ | ⟨tunnel, -, -, hmore⟩⟩ := tls_step hstep
      · exact fun p hp => hvalid p (hsame ▸ hp)
      · exact fun p hp => hvalid p (hmore ▸ List.mem_append_left _ hp)
    exact hlate ((valid_iff (hstored s hs) hbefore hstep).mp hvalid)

def utc : TimeZone := ⟨fun _ => 0, fun _ => 0, fun _ => by simp [CertCache.dayMs]⟩

theorem an_expired_certificate_is_presented :
    ∃ s, Reach (tlsProxy Url.asciiHosts utc none ⟨[limitedRule], [], []⟩) Free s ∧ ¬AlwaysValid s := by
  have hrun : ∃ s, Reach (tlsProxy Url.asciiHosts utc none ⟨[limitedRule], [], []⟩) Free s ∧
      decide (s.presented = [⟨0, ofString "api.anthropic.com", 0, 604800000⟩,
        ⟨691200000, ofString "api.anthropic.com", 0, 604800000⟩]) = true :=
    reach_any (C := Free) [.connect 0 (ofString "api.anthropic.com:443"), .connect 691200000 (ofString "api.anthropic.com:443")]
      (meets_free ..) (by decide)
  obtain ⟨s, hs, hpresented⟩ := hrun
  refine ⟨s, hs, fun h => ?_⟩
  have hlate : (⟨0, 604800000⟩ : HostCertificate).ValidAt 691200000 := by
    refine h ⟨691200000, ofString "api.anthropic.com", 0, 604800000⟩ ?_
    rw [of_decide_eq_true hpresented]
    exact List.mem_cons_of_mem _ (List.mem_singleton_self _)
  exact absurd hlate.2 (by decide)

end FlowHelm.Proxy
