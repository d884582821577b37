/-
  FlowHelm.Container.Lifecycle — lifecycle.ts: what containers are called, and which of those on
  the host a user's lifecycle manager stops and removes. The runtime is that of
  apple-runtime.ts, which lists all containers there are.

  - `stop_overlaps` / `cleanupOrphans_overlaps`: by their names, which containers those are.
-/
import Mathlib.Data.List.Nodup
import Mathlib.Data.List.Infix
import FlowHelm.Lib.Js

namespace FlowHelm.Container

open Js

/-! ## NAMING -/

def agentPrefix : JsString := ofString "flowhelm-agent-"

def proxyPrefix : JsString := ofString "flowhelm-proxy-"

def channelPrefix : JsString := ofString "flowhelm-channel-"

def servicePrefix : JsString := ofString "flowhelm-service-"

def dash : JsString := ofString "-"

def agentContainer (username taskId : JsString) : JsString := agentPrefix ++ username ++ dash ++ taskId

def proxyContainer (username : JsString) : JsString := proxyPrefix ++ username

def channelContainer (username : JsString) : JsString := channelPrefix ++ username

def serviceContainer (username : JsString) : JsString := servicePrefix ++ username

/-! ## AppleContainerRuntime -/

inductive ContainerState where
  | running
  | created
  | paused
  | exited
  | unknown
  deriving DecidableEq

structure AppleContainerLsEntry where
  ID : Option JsString
  Id : Option JsString
  Name : Option JsString
  Names : Option (List JsString)
  State : Option JsString
  Status : Option JsString

structure ContainerInfo where
  id : JsString
  name : JsString
  state : ContainerState
  deriving DecidableEq

/-- A state as the CLI has it; it writes them in ASCII. -/
def toLowerCase (s : JsString) : JsString := s.map fun u => if 0x41 ≤ u ∧ u ≤ 0x5A then u + 0x20 else u

def mapStatusToState (status : JsString) : ContainerState :=
  let normalized := toLowerCase status
  if normalized = ofString "running" ∨ (ofString "up").isPrefixOf normalized = true then .running
  else if normalized = ofString "created" then .created
  else if normalized = ofString "paused" then .paused
  else if normalized = ofString "exited" ∨ normalized = ofString "stopped" then .exited
  else .unknown

def parseContainerInfo (entry : AppleContainerLsEntry) : ContainerInfo where
  id := (entry.ID.or entry.Id).getD []
  name := (entry.Name.or (entry.Names.bind List.head?)).getD []
  state := mapStatusToState ((entry.State.or entry.Status).getD (ofString "unknown"))

structure ContainerFilter where
  namePrefix : Option JsString
  state : Option ContainerState

/-- What `list` gives of what the CLI lists. -/
def list (entries : List AppleContainerLsEntry) (filter : ContainerFilter) : List ContainerInfo :=
  let result := entries.map parseContainerInfo
  let result := match filter.namePrefix with
    | some pre => if pre = [] then result else result.filter fun c => pre.isPrefixOf c.name
    | none => result
  match filter.state with
  | some state => result.filter fun c => c.state = state
  | none => result

/-- What the CLI is run with; a failure of either is caught by the manager. -/
inductive Command where
  | stop (id : JsString) (timeout : Nat)
  | remove (id : JsString)

def Command.id : Command → JsString
  | .stop id _ => id
  | .remove id => id

/-! ## ContainerLifecycleManager -/

/-- The manager's user has this container. -/
def isUserContainer (username : JsString) (c : ContainerInfo) : Bool :=
  (agentPrefix ++ username ++ dash).isPrefixOf c.name || c.name == proxyPrefix ++ username ||
    c.name == channelPrefix ++ username || c.name == servicePrefix ++ username

def stop (username : JsString) (drainTimeout : Nat) (entries : List AppleContainerLsEntry) : List Command :=
  let containers := list entries ⟨some (ofString "flowhelm-"), none⟩
  let userContainers := containers.filter (isUserContainer username)
  (userContainers.filter fun c => c.state = .running).map (fun c => .stop c.id drainTimeout) ++
    userContainers.map fun c => .remove c.id

def cleanupOrphans (username : JsString) (entries : List AppleContainerLsEntry) : List Command :=
  let containers := list entries ⟨some (agentPrefix ++ username ++ dash), none⟩
  (containers.filter fun c => c.state ≠ .running).map fun c => .remove c.id

/-! ## A host -/

inductive Kind where
  | agent (taskId : JsString)
  | proxy
  | channel
  | service

def Kind.containerName (username : JsString) : Kind → JsString
  | .agent taskId => agentContainer username taskId
  | .proxy => proxyContainer username
  | .channel => channelContainer username
  | .service => serviceContainer username

/-- A container of a user, called as NAMING has it. -/
structure UserContainer where
  owner : JsString
  kind : Kind
  entry : AppleContainerLsEntry
  named : (parseContainerInfo entry).name = kind.containerName owner

def UserContainer.info (c : UserContainer) : ContainerInfo := parseContainerInfo c.entry

/-- The containers of one runtime; no two have one id. -/
structure Host where
  containers : List UserContainer
  ids : (containers.map (·.info.id)).Nodup

def Host.entries (host : Host) : List AppleContainerLsEntry := host.containers.map (·.entry)

/-- One of the commands is for the container. -/
def Touches (commands : List Command) (c : UserContainer) : Prop := ∃ command ∈ commands, command.id = c.info.id

/-! ## What is stopped and removed -/

theorem Host.listed {host : Host} {p : JsString} (hp : p ≠ []) {i : ContainerInfo} :
    i ∈ list host.entries ⟨some p, none⟩ ↔ ∃ c ∈ host.containers, c.info = i ∧ p <+: i.name := by
  simp only [list, if_neg hp, List.mem_filter, Host.entries, List.mem_map, List.isPrefixOf_iff_prefix]
  constructor
  · rintro ⟨⟨entry, ⟨c, hc, rfl⟩, rfl⟩, hpre⟩
    exact ⟨c, hc, rfl, hpre⟩
  · rintro ⟨c, hc, rfl, hpre⟩
    exact ⟨⟨c.entry, ⟨c, hc, rfl⟩, rfl⟩, hpre⟩

/-- An id is of one container. -/
theorem Host.eq_of_id {host : Host} {c d : UserContainer} (hc : c ∈ host.containers) (hd : d ∈ host.containers)
    (h : c.info.id = d.info.id) : c = d := List.inj_on_of_nodup_map host.ids hc hd h

/-- What is touched by commands for the containers picked from a listing. -/
theorem Host.touches_iff {host : Host} {p : JsString} (hp : p ≠ []) {c : UserContainer} (hc : c ∈ host.containers)
    {P : ContainerInfo → Prop} {commands : List Command}
    (hcommands : ∀ id, (∃ command ∈ commands, command.id = id) ↔
      ∃ i ∈ list host.entries ⟨some p, none⟩, P i ∧ i.id = id) :
    Touches commands c ↔ p <+: c.info.name ∧ P c.info := by
  unfold Touches
  rw [hcommands]
  constructor
  · rintro ⟨i, hi, hpicked, hid⟩
    obtain ⟨d, hd, rfl, hpre⟩ := (Host.listed hp).mp hi
    obtain rfl := host.eq_of_id hd hc hid
    exact ⟨hpre, hpicked⟩
  · rintro ⟨hpre, hpicked⟩
    exact ⟨c.info, (Host.listed hp).mpr ⟨c, hc, rfl, hpre⟩, hpicked, rfl⟩

theorem cleanupOrphans_touches {host : Host} {c : UserContainer} (hc : c ∈ host.containers) (username : JsString) :
    Touches (cleanupOrphans username host.entries) c ↔ agentPrefix ++ username ++ dash <+: c.info.name ∧
        c.info.state ≠ .running := by
  have hne : agentPrefix ++ username ++ dash ≠ [] := List.append_ne_nil_of_right_ne_nil _ (by decide)
  refine Host.touches_iff (P := fun i => i.state ≠ .running) hne hc fun id => ?_
  simp [cleanupOrphans, Command.id, and_assoc]

theorem stop_touches {host : Host} {c : UserContainer} (hc : c ∈ host.containers) (username : JsString) (drainTimeout : Nat) :
    Touches (stop username drainTimeout host.entries) c ↔
      ofString "flowhelm-" <+: c.info.name ∧ isUserContainer username c.info = true := by
  have hne : ofString "flowhelm-" ≠ [] := by decide
  refine Host.touches_iff (P := fun i => isUserContainer username i = true) hne hc fun id => ?_
  simp only [stop, List.mem_append, List.mem_map, List.mem_filter]
  constructor
  · rintro ⟨command, ⟨i, ⟨⟨hi, huser⟩, -⟩, rfl⟩ | ⟨i, ⟨hi, huser⟩, rfl⟩, rfl⟩
    · exact ⟨i, hi, huser, rfl⟩
    · exact ⟨i, hi, huser, rfl⟩
  · rintro ⟨i, hi, huser, rfl⟩
    exact ⟨.remove i.id, .inr ⟨i, ⟨hi, huser⟩, rfl⟩, rfl⟩

/-! ## Names -/

/-- The four kinds of name differ in their tenth unit. -/
theorem differ {p q : JsString} (hp : 10 ≤ p.length) (hq : 10 ≤ q.length) (h : p.take 10 ≠ q.take 10) (x y : JsString) :
    p ++ x ≠ q ++ y := by
  intro heq
  have := congrArg (List.take 10) heq
  rw [List.take_append_of_le_length hp, List.take_append_of_le_length hq] at this
  exact h this

/-- Which names are taken for those of a user. -/
def Overlaps (username owner : JsString) : Kind → Prop
  | .agent taskId => username ++ dash <+: owner ++ dash ++ taskId
  | .proxy | .channel | .service => owner = username

theorem agent_prefix_iff {username owner taskId : JsString} :
    agentPrefix ++ username ++ dash <+: agentContainer owner taskId ↔ username ++ dash <+: owner ++ dash ++ taskId := by
  unfold agentContainer
  rw [List.append_assoc, List.append_assoc, List.append_assoc, List.prefix_append_right_inj, List.append_assoc]

theorem flowhelm_prefix (owner : JsString) (kind : Kind) : ofString "flowhelm-" <+: kind.containerName owner := by
  cases kind with
  | agent taskId => exact ⟨ofString "agent-" ++ owner ++ dash ++ taskId, rfl⟩
  | proxy => exact ⟨ofString "proxy-" ++ owner, rfl⟩
  | channel => exact ⟨ofString "channel-" ++ owner, rfl⟩
  | service => exact ⟨ofString "service-" ++ owner, rfl⟩

theorem not_agent {q : JsString} (hq : 10 ≤ q.length) (h : agentPrefix.take 10 ≠ q.take 10) (username y : JsString) :
    ¬agentPrefix ++ username ++ dash <+: q ++ y := by
  rintro ⟨rest, hrest⟩
  rw [List.append_assoc, List.append_assoc] at hrest
  exact differ (by decide) hq h _ y hrest

theorem isUserContainer_iff (username : JsString) (c : UserContainer) :
    isUserContainer username c.info = true ↔ Overlaps username c.owner c.kind := by
  obtain ⟨owner, kind, entry, hname⟩ := c
  simp only [isUserContainer, UserContainer.info, hname, Bool.or_eq_true, List.isPrefixOf_iff_prefix, beq_iff_eq]
  cases kind with
  | agent taskId =>
    have hother : ∀ {q : JsString}, 10 ≤ q.length → agentPrefix.take 10 ≠ q.take 10 →
        agentContainer owner taskId ≠ q ++ username := by
      intro q hq hne
      rw [agentContainer, List.append_assoc, List.append_assoc]
      exact differ (by decide) hq hne _ _
    rw [Kind.containerName, Overlaps, agent_prefix_iff, or_iff_left (hother (by decide) (by decide)),
      or_iff_left (hother (by decide) (by decide)), or_iff_left (hother (by decide) (by decide))]
  | proxy =>
    rw [Kind.containerName, Overlaps, proxyContainer, or_iff_left (differ (by decide) (by decide) (by decide) _ _),
      or_iff_left (differ (by decide) (by decide) (by decide) _ _), or_iff_right (not_agent (by decide) (by decide) _ _),
      List.append_cancel_left_eq]
  | channel =>
    rw [Kind.containerName, Overlaps, channelContainer, or_iff_left (differ (by decide) (by decide) (by decide) _ _), or_assoc,
      or_iff_right (not_agent (by decide) (by decide) _ _), or_iff_right (differ (by decide) (by decide) (by decide) _ _),
      List.append_cancel_left_eq]
  | service =>
    rw [Kind.containerName, Overlaps, serviceContainer, or_assoc, or_assoc, or_iff_right (not_agent (by decide) (by decide) _ _),
      or_iff_right (differ (by decide) (by decide) (by decide) _ _),
        or_iff_right (differ (by decide) (by decide) (by decide) _ _),
      List.append_cancel_left_eq]

/-- `stop` touches the containers with names that are taken for the user's. -/
theorem stop_overlaps {host : Host} {c : UserContainer} (hc : c ∈ host.containers) (username : JsString) (drainTimeout : Nat) :
    Touches (stop username drainTimeout host.entries) c ↔ Overlaps username c.owner c.kind := by
  rw [stop_touches hc, isUserContainer_iff]
  refine and_iff_right ?_
  rw [UserContainer.info, c.named]
  exact flowhelm_prefix c.owner c.kind

theorem cleanupOrphans_overlaps {host : Host} {c : UserContainer} (hc : c ∈ host.containers) {username : JsString}
    (h : Touches (cleanupOrphans username host.entries) c) : Overlaps username c.owner c.kind := by
  rw [← isUserContainer_iff, isUserContainer, List.isPrefixOf_iff_prefix.mpr ((cleanupOrphans_touches hc username).mp h).1]
  rfl

end FlowHelm.Container
