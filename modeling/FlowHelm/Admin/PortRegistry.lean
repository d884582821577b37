/-
  FlowHelm.Admin.PortRegistry — port-registry.ts: which user has which block of ports.

  A call reads the registry file, changes what it read and writes it back; the calls come one
  after the other, and the file gives back what was written. Ports are natural numbers. A call
  that throws has written nothing.

  - `allocate_spec`, `free_spec`: an allocation takes the lowest free block and is added to the
    others; what is freed is gone, and the others stay.
  - `blocks_apart`: blocks are disjoint, in range and of different users, whatever calls came.
-/
import Mathlib.Data.List.Sort
import Mathlib.Data.List.Nodup
import FlowHelm.Lib.FirstFit
import FlowHelm.Lib.Js
import FlowHelm.Lib.Runs

namespace FlowHelm.Admin

open Js Runs FirstFit

structure Ports where
  proxy : Nat
  channel : Nat
  service : Nat
  database : Nat
  deriving DecidableEq

structure PortAllocation where
  username : JsString
  basePort : Nat
  ports : Ports
  allocatedAt : JsString
  deriving DecidableEq

structure PortRegistryData where
  basePort : Nat
  portsPerUser : Nat
  allocations : List PortAllocation
  deriving DecidableEq

inductive PortError where
  | alreadyExists (username : JsString)
  | exhaustion (portsPerUser nextBase : Nat)
  | notFound (username : JsString)
  deriving DecidableEq

def PortError.message : PortError → JsString
  | .alreadyExists username => ofString "Port allocation already exists for user \"" ++ username ++ ofString "\""
  | .exhaustion portsPerUser nextBase =>
    ofString "Port exhaustion: cannot allocate " ++ ofString (toString portsPerUser) ++ ofString " ports starting from " ++
      ofString (toString nextBase)
  | .notFound username => ofString "No port allocation found for user \"" ++ username ++ ofString "\""

def defaultBasePort : Nat := 10000

def defaultPortsPerUser : Nat := 10

def maxPort : Nat := 65535

/-- PORT_OFFSETS, from the base of a block. -/
def portsFrom (base : Nat) : Ports := ⟨base, base + 1, base + 2, base + 3⟩

/-! ## The calls -/

/-- The file after `init`, with the options the registry was constructed with. -/
def init (basePort portsPerUser : Option Nat) (file : Option PortRegistryData) : PortRegistryData :=
  file.getD ⟨basePort.getD defaultBasePort, portsPerUser.getD defaultPortsPerUser, []⟩

def nextBase (data : PortRegistryData) : Nat :=
  let usedBases := (data.allocations.map (·.basePort)).insertionSort (· ≤ ·)
  usedBases.foldl (fun nextBase used => if nextBase = used then used + data.portsPerUser else nextBase) data.basePort

def allocate (data : PortRegistryData) (username now : JsString) : Except PortError (PortAllocation × PortRegistryData) :=
  if data.allocations.any (·.username == username) then .error (.alreadyExists username)
  else if maxPort < nextBase data + data.portsPerUser - 1 then .error (.exhaustion data.portsPerUser (nextBase data))
  else
    let allocation := ⟨username, nextBase data, portsFrom (nextBase data), now⟩
    .ok (allocation, { data with allocations := data.allocations ++ [allocation] })

def free (data : PortRegistryData) (username : JsString) : Except PortError (PortAllocation × PortRegistryData) :=
  match data.allocations.find? (·.username == username) with
  | none => .error (.notFound username)
  | some removed => .ok (removed, { data with allocations := data.allocations.eraseP (·.username == username) })

inductive Call where
  | allocate (username now : JsString)
  | free (username : JsString)

def Call.run (data : PortRegistryData) : Call → Except PortError (PortAllocation × PortRegistryData)
  | .allocate username now => Admin.allocate data username now
  | .free username => Admin.free data username

/-- The file after a call. -/
def after (data : PortRegistryData) (c : Call) : PortRegistryData := match c.run data with
  | .ok (_, data) => data
  | .error _ => data

def registry (basePort portsPerUser : Nat) : System PortRegistryData Call where
  init := init (some basePort) (some portsPerUser) none
  step data c := some (after data c)

/-! ## Blocks -/

/-- The ports of a block. -/
def Holds (data : PortRegistryData) (base port : Nat) : Prop := base ≤ port ∧ port < base + data.portsPerUser

/-- A block that starts a whole number of blocks above the first, and has no port of another. -/
def FreeBlock (data : PortRegistryData) (base : Nat) : Prop :=
  Slot data.basePort data.portsPerUser base ∧ ∀ a ∈ data.allocations, ∀ port, Holds data a.basePort port → ¬Holds data base port

structure Sound (data : PortRegistryData) : Prop where
  disjoint : data.allocations.Pairwise fun a b => ∀ port, Holds data a.basePort port → ¬Holds data b.basePort port
  inRange : ∀ a ∈ data.allocations, ∀ port, Holds data a.basePort port → data.basePort ≤ port ∧ port ≤ maxPort
  assigned : ∀ a ∈ data.allocations, ∀ port ∈ [a.ports.proxy, a.ports.channel, a.ports.service, a.ports.database],
    Holds data a.basePort port
  users : (data.allocations.map (·.username)).Nodup

def users (data : PortRegistryData) : List JsString := data.allocations.map (·.username)

/-- `t` has the one allocation more, in the same range with the same width. -/
structure Records (data t : PortRegistryData) (a : PortAllocation) : Prop where
  basePort : t.basePort = data.basePort
  portsPerUser : t.portsPerUser = data.portsPerUser
  allocations : t.allocations.Perm (a :: data.allocations)

/-- What a call may answer, and what it leaves in the file. -/
def Tight (data : PortRegistryData) : Call → Except PortError (PortAllocation × PortRegistryData) → Prop
  | .allocate username _, .ok (a, t) =>
    a.username = username ∧ username ∉ users data ∧ IsLeast {base | FreeBlock data base} a.basePort ∧ Records data t a
  | .allocate username _, .error (.alreadyExists _) => username ∈ users data
  | .allocate _ _, .error (.exhaustion ..) => ∀ base, FreeBlock data base → maxPort < base + data.portsPerUser - 1
  | .allocate _ _, .error (.notFound _) => False
  | .free username, .ok (a, t) => a.username = username ∧ username ∉ users t ∧ Records t data a
  | .free username, .error (.notFound _) => username ∉ users data
  | .free _, .error _ => False

/-- What the calls keep. -/
structure Inv (data : PortRegistryData) : Prop where
  width : 4 ≤ data.portsPerUser
  slots : ∀ a ∈ data.allocations, Slot data.basePort data.portsPerUser a.basePort
  bases : (data.allocations.map (·.basePort)).Nodup
  below : ∀ a ∈ data.allocations, a.basePort + data.portsPerUser - 1 ≤ maxPort
  ports : ∀ a ∈ data.allocations, a.ports = portsFrom a.basePort
  users : (data.allocations.map (·.username)).Nodup

variable {data : PortRegistryData}

theorem slots_apart (hwidth : 0 < data.portsPerUser) {a b : Nat} (ha : Slot data.basePort data.portsPerUser a)
    (hb : Slot data.basePort data.portsPerUser b) :
    (∀ port, Holds data a port → ¬Holds data b port) ↔ a ≠ b := by
  constructor
  · rintro h rfl
    exact h a ⟨le_refl a, by omega⟩ ⟨le_refl a, by omega⟩
  · rintro hne port ⟨h₁, h₂⟩ ⟨h₃, h₄⟩
    rcases Nat.lt_or_gt_of_ne hne with hlt | hlt
    · have := ha.apart hb hlt
      omega
    · have := hb.apart ha hlt
      omega

theorem Inv.sound (h : Inv data) : Sound data := by
  have hwidth := h.width
  refine ⟨?_, fun a ha port hport => ?_, fun a ha port hport => ?_, h.users⟩
  · refine List.Pairwise.imp_of_mem (fun ha hb hne => ?_) (List.pairwise_map.mp h.bases)
    exact (slots_apart (by omega) (h.slots _ ha) (h.slots _ hb)).mpr hne
  · have hbelow := h.below a ha
    have hslot := (h.slots a ha).le
    obtain ⟨h₁, h₂⟩ := hport
    omega
  · rw [h.ports a ha] at hport
    simp only [portsFrom, List.mem_cons, List.not_mem_nil, or_false] at hport
    unfold Holds
    omega

/-- A slot is free where no block starts. -/
theorem Inv.freeBlock_iff (h : Inv data) {base : Nat} :
    FreeBlock data base ↔ Slot data.basePort data.portsPerUser base ∧ base ∉ data.allocations.map (·.basePort) := by
  have hwidth := h.width
  refine and_congr_right fun hslot => ?_
  rw [List.mem_map, not_exists]
  constructor
  · rintro hfree a ⟨ha, rfl⟩
    exact (slots_apart (by omega) (h.slots a ha) hslot).mp (hfree a ha) rfl
  · intro hnone a ha
    exact (slots_apart (by omega) (h.slots a ha) hslot).mpr fun heq => hnone a ⟨ha, heq⟩

theorem Inv.nextBase_least (h : Inv data) : IsLeast {base | FreeBlock data base} (nextBase data) := by
  have hperm := List.perm_insertionSort (· ≤ ·) (data.allocations.map (·.basePort))
  have horder : ((data.allocations.map (·.basePort)).insertionSort (· ≤ ·)).Pairwise (· < ·) := by
    have hsorted := List.pairwise_insertionSort (· ≤ ·) (data.allocations.map (·.basePort))
    exact (hsorted.and (hperm.nodup_iff.mpr h.bases)).imp fun ⟨hle, hne⟩ => lt_of_le_of_ne hle hne
  have hslots : ∀ u ∈ (data.allocations.map (·.basePort)).insertionSort (· ≤ ·), Slot data.basePort data.portsPerUser u := by
    intro u hu
    obtain ⟨a, ha, rfl⟩ := List.mem_map.mp (hperm.mem_iff.mp hu)
    exact h.slots a ha
  have hleast := search_least (by have := h.width; omega) horder hslots
  simp only [hperm.mem_iff] at hleast
  simp only [h.freeBlock_iff]
  exact hleast

theorem any_user {username : JsString} : data.allocations.any (·.username == username) = true ↔ username ∈ users data := by
  simp [users]

theorem allocate_spec (h : Inv data) (username now : JsString) :
    Tight data (.allocate username now) (allocate data username now) := by
  unfold allocate
  split
  · rename_i hany
    exact any_user.mp hany
  · rename_i hnew
    split
    · rename_i hfull
      intro base hbase
      have := h.nextBase_least.2 hbase
      omega
    · refine ⟨rfl, fun hin => hnew (any_user.mpr hin), h.nextBase_least, rfl, rfl, ?_⟩
      exact List.perm_append_singleton ..

theorem free_spec (h : Inv data) (username : JsString) : Tight data (.free username) (free data username) := by
  unfold free
  cases hfind : data.allocations.find? (·.username == username) with
  | none =>
    intro hin
    obtain ⟨a, ha, heq⟩ := List.mem_map.mp hin
    exact List.find?_eq_none.mp hfind a ha (beq_iff_eq.mpr heq)
  | some a =>
    obtain ⟨ha, before, behind, hsplit, hbefore⟩ := List.find?_eq_some_iff_append.mp hfind
    have hrest : data.allocations.eraseP (·.username == username) = before ++ behind := by
      have hothers : ∀ b ∈ before, ¬(b.username == username) = true := fun b hb => by simpa using hbefore b hb
      rw [hsplit, List.eraseP_append_right _ hothers]
      exact congrArg (before ++ ·) (List.eraseP_cons_of_pos ha)
    have hperm : data.allocations.Perm (a :: (before ++ behind)) := by
      rw [hsplit]
      exact List.perm_middle
    have husers : (username :: (before ++ behind).map (·.username)).Nodup := by
      have husers := (hperm.map (·.username)).nodup_iff.mp h.users
      rwa [List.map_cons, eq_of_beq ha] at husers
    dsimp only
    rw [hrest]
    exact ⟨eq_of_beq ha, (List.nodup_cons.mp husers).1, rfl, rfl, hperm⟩

/-- What any call answers. -/
theorem call_spec (h : Inv data) (c : Call) : Tight data c (c.run data) := by
  cases c with
  | allocate username now => exact allocate_spec h username now
  | free username => exact free_spec h username

theorem inv_allocate (h : Inv data) {username now : JsString} {a : PortAllocation} {t : PortRegistryData}
    (hcall : allocate data username now = .ok (a, t)) : Inv t := by
  unfold allocate at hcall
  split at hcall
  · cases hcall
  · rename_i hnew
    split at hcall
    · cases hcall
    · rename_i hbelow
      obtain ⟨hslot, hfree⟩ := h.freeBlock_iff.mp h.nextBase_least.1
      cases hcall
      refine ⟨h.width, ?_, ?_, ?_, ?_, ?_⟩
      · exact List.forall_mem_append.mpr ⟨h.slots, List.forall_mem_singleton.mpr hslot⟩
      · rw [List.map_append, List.map_singleton, List.nodup_append_comm]
        exact List.nodup_cons.mpr ⟨hfree, h.bases⟩
      · exact List.forall_mem_append.mpr ⟨h.below, List.forall_mem_singleton.mpr (not_lt.mp hbelow)⟩
      · exact List.forall_mem_append.mpr ⟨h.ports, List.forall_mem_singleton.mpr rfl⟩
      · rw [List.map_append, List.map_singleton, List.nodup_append_comm]
        refine List.nodup_cons.mpr ⟨fun hin => hnew ?_, h.users⟩
        exact any_user.mpr hin

theorem inv_free (h : Inv data) {username : JsString} {a : PortAllocation} {t : PortRegistryData}
    (hcall : free data username = .ok (a, t)) : Inv t := by
  unfold free at hcall
  split at hcall
  · cases hcall
  · cases hcall
    have hsub : (data.allocations.eraseP (·.username == username)).Sublist data.allocations := List.eraseP_sublist
    exact ⟨h.width, fun b hb => h.slots b (hsub.subset hb), h.bases.sublist (hsub.map _), fun b hb => h.below b (hsub.subset hb),
      fun b hb => h.ports b (hsub.subset hb), h.users.sublist (hsub.map _)⟩

theorem inv_after (h : Inv data) (c : Call) : Inv (after data c) := by
  unfold after
  split
  · rename_i a t hcall
    cases c with
    | allocate username now => exact inv_allocate h hcall
    | free username => exact inv_free h hcall
  · exact h

/-- No call changes the range or the width. -/
theorem config_after (data : PortRegistryData) (c : Call) :
    (after data c).basePort = data.basePort ∧ (after data c).portsPerUser = data.portsPerUser := by
  unfold after
  split
  · rename_i a t hcall
    cases c with
    | allocate username now =>
      simp only [Call.run, allocate] at hcall
      split at hcall
      · cases hcall
      · split at hcall
        · cases hcall
        · cases hcall
          exact ⟨rfl, rfl⟩
    | free username =>
      simp only [Call.run, free] at hcall
      split at hcall
      · cases hcall
      · cases hcall
        exact ⟨rfl, rfl⟩
  · exact ⟨rfl, rfl⟩

/-- After any calls, blocks are disjoint, in range and of different users; the next allocation
    is of the lowest free block and is recorded, and what is freed is one user's allocation. -/
theorem blocks_apart {basePort portsPerUser : Nat} (h : 4 ≤ portsPerUser) {s : PortRegistryData}
    (hs : Reach (registry basePort portsPerUser) Free s) :
    (s.basePort = basePort ∧ s.portsPerUser = portsPerUser) ∧ Sound s ∧ ∀ c : Call, Tight s c (c.run s) := by
  have hinit : Inv (registry basePort portsPerUser).init :=
    ⟨h, List.forall_mem_nil _, List.nodup_nil, List.forall_mem_nil _, List.forall_mem_nil _, List.nodup_nil⟩
  have hinv : Inv s ∧ s.basePort = basePort ∧ s.portsPerUser = portsPerUser := by
    refine hs.inv (I := fun s => Inv s ∧ s.basePort = basePort ∧ s.portsPerUser = portsPerUser) ⟨hinit, rfl, rfl⟩
      fun s c t _ hs _ hst => ?_
    obtain rfl := Option.some.inj hst
    obtain ⟨hbase, hper⟩ := config_after s c
    exact ⟨inv_after hs.1 c, hbase.trans hs.2.1, hper.trans hs.2.2⟩
  exact ⟨hinv.2, hinv.1.sound, call_spec hinv.1⟩

theorem a_freed_block_is_taken_again : ∃ s, Reach (registry 10000 10) Free s ∧ (Sound s ∧ ∀ c : Call, Tight s c (c.run s)) ∧
    (after s (.allocate (ofString "eve") [])).allocations.map (fun a => (a.username, a.basePort)) =
      [(ofString "bob", 10010), (ofString "eve", 10000)] := by
  obtain ⟨s, hs, heve⟩ := reach_any (M := registry 10000 10) (C := Free)
    (P := fun s => decide ((after s (.allocate (ofString "eve") [])).allocations.map (fun a => (a.username, a.basePort)) =
      [(ofString "bob", 10010), (ofString "eve", 10000)]))
    [.allocate (ofString "ann") [], .allocate (ofString "bob") [], .free (ofString "ann")] (meets_free ..) (by decide)
  exact ⟨s, hs, (blocks_apart (by decide) hs).2, of_decide_eq_true heve⟩

end FlowHelm.Admin
