/-
  FlowHelm.Orchestrator.ProfileCache — the profile an `McpServer` keeps for its chat.

  Actors: the servers of the chats (`start` reads the chat's profile once, orchestrator.ts
  keeps the server for later queue items), the switches (the tool `switch_chat_profile`
  and the command `/profile switch`, both through `assignChat`, statement by statement),
  and the agents' profile-scoped tool calls, each of which takes `this.profileId` as it
  is. `assign` is an `assignChat` of anybody else; profiles and chats come and go as the
  foreign keys allow. A call records the profile it uses and the one the chat has then.

  - `calls_use_the_profile`: the two are the same in every run in which a chat with a
    running server is only given another profile by that server's own tool, and no call
    of the server and no other switch comes between the UPDATE and the tool's end.
  - `a_switch_by_command_is_not_seen`: after `/profile switch` the server goes on with
    the old profile.
-/
import FlowHelm.Lib.Runs
import FlowHelm.Memory.Tables
import Mathlib.Logic.Function.Basic

namespace FlowHelm.ProfileCache

open Memory (Profile Chat)
open Runs

/-- How far `start` is. -/
inductive Phase where
  | resolving
  | defaulting
  | opening
  | listening
  | stopped
  deriving DecidableEq

structure Server where
  defaultChatId : String
  profileId : Option Nat
  phase : Phase

inductive Caller where
  | tool (server : Nat)
  | command (chatId : String)

/-- The statement a switch waits for: `getProfileByName`, the three of `assignChat`, and
    for the tool `getProfile` of the previous profile. -/
inductive SwitchPc where
  | byName
  | target (t : Profile)
  | current (t : Profile)
  | update (t : Profile)
  | previous (t : Profile)

structure Switch where
  caller : Caller
  profileName : String
  pc : SwitchPc

/-- A profile-scoped tool call. -/
structure Use where
  server : Nat
  profileId : Nat
  assigned : Option Nat
  deriving DecidableEq

structure St where
  profiles : List Profile
  chats : List Chat
  servers : Nat → Option Server
  mcpServers : String → Option Nat
  switches : Nat → Option Switch
  uses : List Use

namespace St

variable (s : St)

/-- `profile_id` of the chat. -/
def assigned (chatId : String) : Option Nat := (s.chats.find? (·.id == chatId)).map (·.profileId)

def getProfile (profileId : Nat) : Option Profile := s.profiles.find? (·.id == profileId)

def getProfileByName (name : String) : Option Profile := s.profiles.find? (·.name == name)

def getDefaultProfile : Option Profile := s.profiles.find? (·.isDefault)

/-- The JOIN of `chats` and `agent_profiles`. -/
def getChatProfile (chatId : String) : Option Profile := (s.assigned chatId).bind s.getProfile

def setServer (i : Nat) (srv : Server) : St := { s with servers := Function.update s.servers i (some srv) }

def setSwitch (k : Nat) (sw : Option Switch) : St := { s with switches := Function.update s.switches k sw }

def setChatProfile (chatId : String) (profileId : Nat) : St :=
  { s with chats := s.chats.map fun c => if c.id = chatId then { c with profileId } else c }

/-- The chat a switch is for. -/
def chatOf : Caller → Option String
  | .tool i => (s.servers i).map (·.defaultChatId)
  | .command chatId => some chatId

end St

inductive Ev where
  /-- `new McpServer` for a queue item of the chat. -/
  | boot (i : Nat) (chatId : String)
  | resolve (i : Nat)
  | resolveDefault (i : Nat)
  | listen (i : Nat)
  | register (i : Nat)
  | startFails (i : Nat)
  | stop
  | toolCall (i : Nat)
  | call (k : Nat) (caller : Caller) (profileName : String)
  | advance (k : Nat)
  /-- The statement fails, its UPDATE executed or not. -/
  | fail (k : Nat) (executed : Bool)
  | assign (chatId : String) (profileId : Nat)
  | newChat (chat : Chat)
  | setProfiles (profiles : List Profile)

/-- The UPDATE of `assignChat`, unless the foreign key refuses it. -/
def update (s : St) (chatId : String) (profileId : Nat) : Option St :=
  if (s.getProfile profileId).isSome then some (s.setChatProfile chatId profileId) else none

/-- The answer of the statement a switch waits for, and the code up to the next. -/
def advance (s : St) (k : Nat) (sw : Switch) (chatId : String) : Option St := match sw.pc with
  | .byName => match s.getProfileByName sw.profileName with
    | none => some (s.setSwitch k none)
    | some t => some (s.setSwitch k (some { sw with pc := .target t }))
  | .target t => match s.getProfile t.id with
    | none => some (s.setSwitch k none)
    | some _ => some (s.setSwitch k (some { sw with pc := .current t }))
  | .current t => match s.assigned chatId with
    | none => some (s.setSwitch k none)
    | some _ => some (s.setSwitch k (some { sw with pc := .update t }))
  | .update t => (update s chatId t.id).map fun u => match sw.caller with
    | .tool _ => u.setSwitch k (some { sw with pc := .previous t })
    | .command _ => u.setSwitch k none
  | .previous t => match sw.caller with
    | .tool i => (s.servers i).map fun srv => (s.setServer i { srv with profileId := some t.id }).setSwitch k none
    | .command _ => none

def step (s : St) : Ev → Option St
  | .boot i chatId => match s.servers i, s.mcpServers chatId, s.assigned chatId with
    | none, none, some _ => some (s.setServer i ⟨chatId, none, .resolving⟩)
    | _, _, _ => none
  | .resolve i => match s.servers i with
    | some ⟨chatId, _, .resolving⟩ => match s.getChatProfile chatId with
      | some profile => some (s.setServer i ⟨chatId, some profile.id, .opening⟩)
      | none => some (s.setServer i ⟨chatId, none, .defaulting⟩)
    | _ => none
  | .resolveDefault i => match s.servers i with
    | some ⟨chatId, _, .defaulting⟩ => some (s.setServer i ⟨chatId, s.getDefaultProfile.map (·.id), .opening⟩)
    | _ => none
  | .listen i => match s.servers i with
    | some ⟨chatId, profileId, .opening⟩ => some (s.setServer i ⟨chatId, profileId, .listening⟩)
    | _ => none
  | .register i => match s.servers i with
    | some ⟨chatId, _, .listening⟩ => some { s with mcpServers := Function.update s.mcpServers chatId (some i) }
    | _ => none
  | .startFails i => match s.servers i with
    | some srv => if srv.phase = .listening then none else some (s.setServer i { srv with phase := .stopped })
    | none => none
  | .stop => some { s with
      servers := fun i => (s.servers i).map fun srv => { srv with phase := .stopped }
      mcpServers := fun _ => none }
  | .toolCall i => match s.servers i with
    | some ⟨chatId, profileId, .listening⟩ => match profileId with
      | some profileId => some { s with uses := ⟨i, profileId, s.assigned chatId⟩ :: s.uses }
      | none => some s
    | _ => none
  | .call k caller profileName => match s.switches k with
    | none => match caller with
      | .tool i => match s.servers i with
        | some ⟨_, _, .listening⟩ => some (s.setSwitch k (some ⟨caller, profileName, .byName⟩))
        | _ => none
      | .command _ => some (s.setSwitch k (some ⟨caller, profileName, .byName⟩))
    | some _ => none
  | .advance k => match s.switches k with
    | some sw => (s.chatOf sw.caller).bind (advance s k sw)
    | none => none
  | .fail k executed => match s.switches k with
    | some sw => match sw.pc, executed with
      | .update t, true => (s.chatOf sw.caller).bind fun chatId =>
        (update s chatId t.id).map fun u => u.setSwitch k none
      | _, _ => some (s.setSwitch k none)
    | none => none
  | .assign chatId profileId => update s chatId profileId
  | .newChat chat =>
    if (s.assigned chat.id).isNone ∧ (s.getProfile chat.profileId).isSome then some { s with chats := chat :: s.chats }
    else none
  | .setProfiles profiles =>
    if ∀ c ∈ s.chats, (profiles.find? (·.id == c.profileId)).isSome then some { s with profiles } else none

def orchestrator (profiles : List Profile) (chats : List Chat) : System St Ev where
  init := ⟨profiles, chats, fun _ => none, fun _ => none, fun _ => none, []⟩
  step := step

/-! ## Which assignments a server learns of -/

/-- The server has read its profile and can be called, now or when it listens. -/
def Server.resolved (srv : Server) : Prop := srv.phase = .opening ∨ srv.phase = .listening

def Caller.server : Caller → Option Nat
  | .tool i => some i
  | .command _ => none

/-- A switch by the tool of server `i` is between its UPDATE and its end. -/
def Between (s : St) (i : Nat) : Prop := ∃ k sw t, s.switches k = some sw ∧ sw.pc = .previous t ∧ sw.caller = .tool i

def Quiet (s : St) (chatId : String) : Prop :=
  ∀ i srv, s.servers i = some srv → srv.defaultChatId = chatId → ¬Between s i

/-- The servers of the chat, the one excepted, have `profileId` already. -/
def Have (s : St) (chatId : String) (profileId : Nat) (except : Option Nat) : Prop :=
  ∀ i srv, s.servers i = some srv → srv.defaultChatId = chatId → srv.resolved → except ≠ some i →
    srv.profileId = some profileId

/-- No server but the one that assigns would have to learn of it. -/
def Assignable (s : St) (chatId : String) (profileId : Nat) (by_server : Option Nat) : Prop :=
  Quiet s chatId ∧ Have s chatId profileId by_server

/-- The condition on the steps of a run. -/
def Own (s : St) : Ev → Prop
  | .toolCall i => ¬Between s i
  | .advance k => ∀ sw t chatId, s.switches k = some sw → s.chatOf sw.caller = some chatId → sw.pc = .update t →
      Assignable s chatId t.id sw.caller.server
  | .fail k executed => ∀ sw t chatId, s.switches k = some sw → s.chatOf sw.caller = some chatId →
      (sw.pc = .update t → executed = true → Assignable s chatId t.id none) ∧
        (sw.pc = .previous t → Have s chatId t.id none)
  | .assign chatId profileId => Assignable s chatId profileId none
  | _ => True

/-! ## The invariant -/

/-- What holds of every server and every switch; of the cache of `except`, nothing. -/
structure InvBut (except : Option Nat) (s : St) : Prop where
  foreignKey : ∀ c ∈ s.chats, (s.getProfile c.profileId).isSome
  row : ∀ i srv, s.servers i = some srv → (s.assigned srv.defaultChatId).isSome
  resolves : ∀ i srv, s.servers i = some srv → srv.phase ≠ .defaulting
  caller : ∀ k sw i, s.switches k = some sw → sw.caller = .tool i → (s.servers i).isSome
  pending : ∀ k sw t i srv, s.switches k = some sw → sw.pc = .previous t → sw.caller = .tool i →
    s.servers i = some srv → s.assigned srv.defaultChatId = some t.id
  cached : ∀ i srv, except ≠ some i → s.servers i = some srv → srv.resolved →
    srv.profileId = s.assigned srv.defaultChatId ∨ Between s i
  used : ∀ u ∈ s.uses, u.assigned = some u.profileId

abbrev Inv : St → Prop := InvBut none

section Steps

variable {s : St}

theorem setServer_self (i : Nat) (srv : Server) : (s.setServer i srv).servers i = some srv :=
  Function.update_self ..

theorem setServer_ne {i j : Nat} (h : j ≠ i) (srv : Server) : (s.setServer i srv).servers j = s.servers j :=
  Function.update_of_ne h ..

theorem setSwitch_self (k : Nat) (sw : Option Switch) : (s.setSwitch k sw).switches k = sw := Function.update_self ..

theorem setSwitch_ne {k l : Nat} (h : l ≠ k) (sw : Option Switch) : (s.setSwitch k sw).switches l = s.switches l :=
  Function.update_of_ne h ..

theorem getChatProfile_id {chatId : String} {profile : Profile} (h : s.getChatProfile chatId = some profile) :
    s.assigned chatId = some profile.id := by
  obtain ⟨profileId, hassigned, hget⟩ := Option.bind_eq_some_iff.mp h
  have hid : profile.id = profileId := by simpa using List.find?_some hget
  rw [hassigned, hid]

theorem getChatProfile_some (hfk : ∀ c ∈ s.chats, (s.getProfile c.profileId).isSome) {chatId : String}
    (h : (s.assigned chatId).isSome) : (s.getChatProfile chatId).isSome := by
  obtain ⟨profileId, hassigned⟩ := Option.isSome_iff_exists.mp h
  obtain ⟨c, hfind, rfl⟩ := Option.map_eq_some_iff.mp hassigned
  unfold St.getChatProfile
  rw [hassigned]
  exact hfk c (List.mem_of_find?_eq_some hfind)

/-- `assignChat` gives the chat the profile and leaves the others theirs. -/
theorem assigned_setChatProfile (chatId : String) (profileId : Nat) (d : String) :
    (s.setChatProfile chatId profileId).assigned d =
      if d = chatId then (s.assigned d).map fun _ => profileId else s.assigned d := by
  have hkey : ∀ c : Chat, (if c.id = chatId then { c with profileId } else c).id = c.id := by
    intro c
    split <;> rfl
  have hfind : (s.setChatProfile chatId profileId).chats.find? (·.id == d) =
      (s.chats.find? (·.id == d)).map fun c => if c.id = chatId then { c with profileId } else c := by
    show (s.chats.map _).find? _ = _
    rw [List.find?_map]
    congr 2
    funext c
    simp [Function.comp, hkey]
  unfold St.assigned
  rw [hfind]
  cases hc : s.chats.find? (·.id == d) with
  | none => simp
  | some c =>
    have hid : c.id = d := by simpa using List.find?_some hc
    by_cases hd : d = chatId
    · simp [hid, hd]
    · simp [hid, hd]

/-- A server gets on with its start, or its cache is brought up to date. -/
theorem InvBut.setServer {i : Nat} {srv : Server} (h : Inv s) (hrow : (s.assigned srv.defaultChatId).isSome)
    (hold : ∀ old, s.servers i = some old → old.defaultChatId = srv.defaultChatId) (hphase : srv.phase ≠ .defaulting)
    (hcached : srv.resolved → srv.profileId = s.assigned srv.defaultChatId ∨ Between s i) : Inv (s.setServer i srv) := by
  refine ⟨h.foreignKey, ?_, ?_, ?_, ?_, ?_, h.used⟩
  · intro j srv' hj
    by_cases hij : j = i
    · subst hij
      rw [setServer_self] at hj
      cases hj
      exact hrow
    · rw [setServer_ne hij] at hj
      exact h.row j srv' hj
  · intro j srv' hj
    by_cases hij : j = i
    · subst hij
      rw [setServer_self] at hj
      cases hj
      exact hphase
    · rw [setServer_ne hij] at hj
      exact h.resolves j srv' hj
  · intro k sw j hk hj
    by_cases hij : j = i
    · subst hij
      rw [setServer_self]
      rfl
    · rw [setServer_ne hij]
      exact h.caller k sw j hk hj
  · intro k sw t j srv' hk hpc hcaller hj
    by_cases hij : j = i
    · subst hij
      rw [setServer_self] at hj
      cases hj
      obtain ⟨old, hsome⟩ := Option.isSome_iff_exists.mp (h.caller k sw j hk hcaller)
      show s.assigned srv.defaultChatId = some t.id
      rw [← hold old hsome]
      exact h.pending k sw t j old hk hpc hcaller hsome
    · rw [setServer_ne hij] at hj
      exact h.pending k sw t j srv' hk hpc hcaller hj
  · intro j srv' _ hj hres
    by_cases hij : j = i
    · subst hij
      rw [setServer_self] at hj
      cases hj
      exact hcached hres
    · rw [setServer_ne hij] at hj
      exact h.cached j srv' nofun hj hres

/-- A switch gets on. What it was about to do for a server's cache has been done; the
    server that is excepted is about to be told. -/
theorem InvBut.setSwitch {except : Option Nat} {k : Nat} {new : Option Switch} (h : InvBut except s)
    (htold : ∀ sw t i srv, s.switches k = some sw → sw.pc = .previous t → sw.caller = .tool i → s.servers i = some srv →
      srv.resolved → srv.profileId = s.assigned srv.defaultChatId)
    (hcaller : ∀ sw i, new = some sw → sw.caller = .tool i → (s.servers i).isSome)
    (hpending : ∀ sw t i srv, new = some sw → sw.pc = .previous t → sw.caller = .tool i → s.servers i = some srv →
      s.assigned srv.defaultChatId = some t.id)
    (hexcept : ∀ i, except = some i → ∃ sw t, new = some sw ∧ sw.pc = .previous t ∧ sw.caller = .tool i) :
    Inv (s.setSwitch k new) := by
  refine ⟨h.foreignKey, h.row, h.resolves, ?_, ?_, ?_, h.used⟩
  · intro l sw i hl hi
    by_cases hkl : l = k
    · subst hkl
      rw [setSwitch_self] at hl
      exact hcaller sw i hl hi
    · rw [setSwitch_ne hkl] at hl
      exact h.caller l sw i hl hi
  · intro l sw t i srv hl hpc hi hsrv
    by_cases hkl : l = k
    · subst hkl
      rw [setSwitch_self] at hl
      exact hpending sw t i srv hl hpc hi hsrv
    · rw [setSwitch_ne hkl] at hl
      exact h.pending l sw t i srv hl hpc hi hsrv
  · intro i srv _ hsrv hres
    by_cases hi : except = some i
    · obtain ⟨sw, t, hnew, hpc, hcall⟩ := hexcept i hi
      exact Or.inr ⟨k, sw, t, (setSwitch_self k new).trans hnew, hpc, hcall⟩
    · rcases h.cached i srv hi hsrv hres with hsame | ⟨l, sw, t, hl, hpc, hcall⟩
      · exact Or.inl hsame
      · by_cases hkl : l = k
        · subst hkl
          exact Or.inl (htold sw t i srv hl hpc hcall hsrv hres)
        · exact Or.inr ⟨l, sw, t, (setSwitch_ne hkl new).trans hl, hpc, hcall⟩

/-- A switch ends; what it was about to do for a server's cache has been done. -/
theorem InvBut.endSwitch {k : Nat} (h : Inv s)
    (htold : ∀ sw t i srv, s.switches k = some sw → sw.pc = .previous t → sw.caller = .tool i → s.servers i = some srv →
      srv.resolved → srv.profileId = s.assigned srv.defaultChatId) : Inv (s.setSwitch k none) := by
  refine h.setSwitch htold ?_ ?_ ?_
  · intro sw i hnew
    cases hnew
  · intro sw t i srv hnew
    cases hnew
  · intro i hexcept
    cases hexcept

/-- The UPDATE of an assignment that no other server would have to learn of. -/
theorem InvBut.update {u : St} {chatId : String} {profileId : Nat} {except : Option Nat} (h : Inv s)
    (hok : Assignable s chatId profileId except) (hu : update s chatId profileId = some u) : InvBut except u := by
  obtain ⟨hquiet, hhave⟩ := hok
  unfold ProfileCache.update at hu
  split at hu
  · rename_i hprofile
    cases hu
    refine ⟨?_, ?_, h.resolves, h.caller, ?_, ?_, h.used⟩
    · intro c hc
      obtain ⟨c', hc', rfl⟩ := List.mem_map.mp hc
      split
      · exact hprofile
      · exact h.foreignKey c' hc'
    · intro i srv hsrv
      rw [assigned_setChatProfile]
      split
      · rw [Option.isSome_map]
        exact h.row i srv hsrv
      · exact h.row i srv hsrv
    · intro k sw t i srv hk hpc hcaller hsrv
      rw [assigned_setChatProfile]
      split
      · rename_i hchat
        exact (hquiet i srv hsrv hchat ⟨k, sw, t, hk, hpc, hcaller⟩).elim
      · exact h.pending k sw t i srv hk hpc hcaller hsrv
    · intro i srv hne hsrv hres
      rw [assigned_setChatProfile]
      split
      · rename_i hchat
        obtain ⟨p, hp⟩ := Option.isSome_iff_exists.mp (h.row i srv hsrv)
        rw [hp]
        exact Or.inl (hhave i srv hsrv hchat hres hne)
      · exact h.cached i srv nofun hsrv hres
  · cases hu

theorem update_frame {u : St} {chatId : String} {profileId : Nat} (hu : update s chatId profileId = some u) :
    u.servers = s.servers ∧ u.switches = s.switches := by
  unfold update at hu
  split at hu
  · cases hu
    exact ⟨rfl, rfl⟩
  · cases hu

/-- A switch that was not about to tell its server has nothing to tell. -/
theorem nothing_told {k : Nat} {sw : Switch} (hk : s.switches k = some sw) (hpc : ∀ t, sw.pc ≠ .previous t) :
    ∀ sw' t i srv, s.switches k = some sw' → sw'.pc = .previous t → sw'.caller = .tool i → s.servers i = some srv →
      srv.resolved → srv.profileId = s.assigned srv.defaultChatId := by
  intro sw' t i srv hk' hpc'
  rw [hk] at hk'
  cases hk'
  exact (hpc t hpc').elim

/-- A switch goes on before its UPDATE, or ends there. -/
theorem inv_goes_on {k : Nat} {sw : Switch} {new : Option Switch} (h : Inv s) (hk : s.switches k = some sw)
    (hpc : ∀ t, sw.pc ≠ .previous t) (hnew : ∀ sw', new = some sw' → sw'.caller = sw.caller ∧ ∀ t, sw'.pc ≠ .previous t) :
    Inv (s.setSwitch k new) := by
  refine h.setSwitch (nothing_told hk hpc) ?_ ?_ nofun
  · intro sw' i hsw' hi
    exact h.caller k sw i hk ((hnew sw' hsw').1 ▸ hi)
  · intro sw' t i srv hsw' ht
    exact ((hnew sw' hsw').2 t ht).elim

theorem advance_inv {k : Nat} {t : St} (h : Inv s) (hok : Own s (.advance k)) (ht : step s (.advance k) = some t) : Inv t := by
  unfold step at ht
  dsimp only at ht
  split at ht
  · rename_i sw hk
    obtain ⟨chatId, hchat, ht⟩ := Option.bind_eq_some_iff.mp ht
    unfold advance at ht
    split at ht
    · rename_i hpc
      have hnot : ∀ t, sw.pc ≠ .previous t := by simp [hpc]
      split at ht
      · cases ht
        exact inv_goes_on h hk hnot nofun
      · cases ht
        exact inv_goes_on h hk hnot (by simp)
    · rename_i hpc
      have hnot : ∀ t, sw.pc ≠ .previous t := by simp [hpc]
      split at ht
      · cases ht
        exact inv_goes_on h hk hnot nofun
      · cases ht
        exact inv_goes_on h hk hnot (by simp)
    · rename_i hpc
      have hnot : ∀ t, sw.pc ≠ .previous t := by simp [hpc]
      split at ht
      · cases ht
        exact inv_goes_on h hk hnot nofun
      · cases ht
        exact inv_goes_on h hk hnot (by simp)
    · rename_i target hpc
      obtain ⟨u, hu, hend⟩ := Option.map_eq_some_iff.mp ht
      have hbut := h.update (hok sw target chatId hk hchat hpc) hu
      obtain ⟨hservers, hswitches⟩ := update_frame hu
      have hku : u.switches k = some sw := by rw [hswitches, hk]
      have hnot : ∀ t, sw.pc ≠ .previous t := by simp [hpc]
      -- the UPDATE is done: the tool has its server to tell, the command nobody
      split at hend
      · rename_i i hcaller
        cases hend
        rw [hcaller] at hbut hchat
        refine hbut.setSwitch (nothing_told hku hnot) ?_ ?_ ?_
        · intro sw' j hnew hj
          cases hnew
          exact hbut.caller k sw j hku hj
        · intro sw' t' j srv hnew ht' hj hsrv
          cases hnew
          cases ht'
          obtain rfl : i = j := by simpa [hcaller] using hj
          obtain ⟨srv', hsrv', rfl⟩ := Option.map_eq_some_iff.mp hchat
          rw [hservers, hsrv'] at hsrv
          cases hsrv
          obtain ⟨p, hp⟩ := Option.isSome_iff_exists.mp (h.row i srv hsrv')
          unfold update at hu
          split at hu
          · cases hu
            rw [assigned_setChatProfile, if_pos rfl, hp]
            rfl
          · cases hu
        · intro j hj
          obtain rfl : i = j := by simpa [Caller.server] using hj
          exact ⟨_, target, rfl, rfl, hcaller⟩
      · rename_i c hcaller
        cases hend
        rw [hcaller] at hbut
        exact inv_goes_on hbut hku hnot nofun
    · rename_i target hpc
      split at ht
      · rename_i i hcaller
        obtain ⟨srv, hsrv, rfl⟩ := Option.map_eq_some_iff.mp ht
        have hassigned := h.pending k sw target i srv hk hpc hcaller hsrv
        have hset : Inv (s.setServer i { srv with profileId := some target.id }) :=
          h.setServer (h.row i srv hsrv) (fun old hold => by rw [hsrv] at hold; cases hold; rfl) (h.resolves i srv hsrv)
            fun _ => Or.inl hassigned.symm
        refine hset.endSwitch ?_
        intro sw' t' j srv' hk' _ hj hsrv' _
        obtain rfl : sw = sw' := Option.some.inj (hk.symm.trans hk')
        obtain rfl : i = j := by simpa [hcaller] using hj
        rw [setServer_self] at hsrv'
        cases hsrv'
        exact hassigned.symm
      · cases ht
  · cases ht

theorem fail_inv {k : Nat} {executed : Bool} {t : St} (h : Inv s) (hok : Own s (.fail k executed))
    (ht : step s (.fail k executed) = some t) : Inv t := by
  unfold step at ht
  dsimp only at ht
  split at ht
  · rename_i sw hk
    split at ht
    · rename_i target hpc
      obtain ⟨chatId, hchat, ht⟩ := Option.bind_eq_some_iff.mp ht
      obtain ⟨u, hu, rfl⟩ := Option.map_eq_some_iff.mp ht
      have hbut := h.update ((hok sw target chatId hk hchat).1 hpc rfl) hu
      have hku : u.switches k = some sw := by rw [(update_frame hu).2, hk]
      exact inv_goes_on hbut hku (by simp [hpc]) nofun
    · cases ht
      refine h.endSwitch ?_
      intro sw' target i srv hk' hpc hcaller hsrv hres
      obtain rfl : sw = sw' := Option.some.inj (hk.symm.trans hk')
      have hchat : s.chatOf sw.caller = some srv.defaultChatId := by
        rw [hcaller]
        show (s.servers i).map (·.defaultChatId) = _
        rw [hsrv]
        rfl
      rw [(hok sw target srv.defaultChatId hk hchat).2 hpc i srv hsrv rfl hres nofun]
      exact (h.pending k sw target i srv hk hpc hcaller hsrv).symm
  · cases ht

theorem boot_inv {i : Nat} {chatId : String} {t : St} (h : Inv s) (ht : step s (.boot i chatId) = some t) : Inv t := by
  unfold step at ht
  dsimp only at ht
  split at ht
  · rename_i profileId hnone _ hassigned
    cases ht
    refine h.setServer (by rw [hassigned]; rfl) ?_ nofun nofun
    intro old hold
    rw [hnone] at hold
    cases hold
  · cases ht

theorem resolve_inv {i : Nat} {t : St} (h : Inv s) (ht : step s (.resolve i) = some t) : Inv t := by
  unfold step at ht
  dsimp only at ht
  split at ht
  · rename_i chatId old hsrv
    have hrow : (s.assigned chatId).isSome := h.row i _ hsrv
    split at ht
    · rename_i profile hprofile
      cases ht
      refine h.setServer hrow ?_ nofun fun _ => Or.inl (getChatProfile_id hprofile).symm
      intro old' hold
      rw [hsrv] at hold
      cases hold
      rfl
    · rename_i hnone
      have hsome := getChatProfile_some h.foreignKey hrow
      rw [hnone] at hsome
      cases hsome
  · cases ht

theorem resolveDefault_inv {i : Nat} {t : St} (h : Inv s) (ht : step s (.resolveDefault i) = some t) : Inv t := by
  unfold step at ht
  dsimp only at ht
  split at ht
  · rename_i hsrv
    exact (h.resolves i _ hsrv rfl).elim
  · cases ht

theorem listen_inv {i : Nat} {t : St} (h : Inv s) (ht : step s (.listen i) = some t) : Inv t := by
  unfold step at ht
  dsimp only at ht
  split at ht
  · rename_i chatId profileId hsrv
    cases ht
    refine h.setServer (h.row i ⟨chatId, profileId, .opening⟩ hsrv) ?_ nofun fun _ =>
      h.cached i ⟨chatId, profileId, .opening⟩ nofun hsrv (Or.inl rfl)
    intro old hold
    rw [hsrv] at hold
    cases hold
    rfl
  · cases ht

theorem startFails_inv {i : Nat} {t : St} (h : Inv s) (ht : step s (.startFails i) = some t) : Inv t := by
  unfold step at ht
  dsimp only at ht
  split at ht
  · rename_i srv hsrv
    split at ht
    · cases ht
    · cases ht
      refine h.setServer (h.row i srv hsrv) ?_ nofun nofun
      intro old hold
      rw [hsrv] at hold
      cases hold
      rfl
  · cases ht

theorem stop_inv {t : St} (h : Inv s) (ht : step s .stop = some t) : Inv t := by
  cases ht
  have hold : ∀ i srv, (s.servers i).map (fun srv => { srv with phase := .stopped }) = some srv →
      ∃ old, s.servers i = some old ∧ old.defaultChatId = srv.defaultChatId ∧ srv.phase = .stopped := by
    intro i srv hsrv
    obtain ⟨old, hsome, rfl⟩ := Option.map_eq_some_iff.mp hsrv
    exact ⟨old, hsome, rfl, rfl⟩
  refine ⟨h.foreignKey, ?_, ?_, ?_, ?_, ?_, h.used⟩
  · intro i srv hsrv
    obtain ⟨old, hsome, hchat, -⟩ := hold i srv hsrv
    exact hchat ▸ h.row i old hsome
  · intro i srv hsrv
    obtain ⟨-, -, -, hphase⟩ := hold i srv hsrv
    simp [hphase]
  · intro k sw i hk hi
    rw [Option.isSome_map]
    exact h.caller k sw i hk hi
  · intro k sw t i srv hk hpc hi hsrv
    obtain ⟨old, hsome, hchat, -⟩ := hold i srv hsrv
    exact hchat ▸ h.pending k sw t i old hk hpc hi hsome
  · intro i srv _ hsrv hres
    obtain ⟨-, -, -, hphase⟩ := hold i srv hsrv
    simp [Server.resolved, hphase] at hres

theorem toolCall_inv {i : Nat} {t : St} (h : Inv s) (hok : Own s (.toolCall i)) (ht : step s (.toolCall i) = some t) : Inv t := by
  unfold step at ht
  dsimp only at ht
  split at ht
  · rename_i chatId cache hsrv
    split at ht
    · rename_i profileId
      cases ht
      refine ⟨h.foreignKey, h.row, h.resolves, h.caller, h.pending, h.cached, ?_⟩
      intro u hu
      rcases List.mem_cons.mp hu with rfl | hu
      · rcases h.cached i _ nofun hsrv (Or.inr rfl) with hsame | hbetween
        · exact hsame.symm
        · exact (hok hbetween).elim
      · exact h.used u hu
    · cases ht
      exact h
  · cases ht

theorem call_inv {k : Nat} {caller : Caller} {profileName : String} {t : St} (h : Inv s)
    (ht : step s (.call k caller profileName) = some t) : Inv t := by
  have hfresh : ∀ c, s.switches k = none → (∀ i, c = .tool i → (s.servers i).isSome) →
      Inv (s.setSwitch k (some ⟨c, profileName, .byName⟩)) := by
    intro c hk hserver
    refine h.setSwitch ?_ ?_ ?_ nofun
    · intro sw t i srv hsw
      rw [hk] at hsw
      cases hsw
    · intro sw i hsw
      cases hsw
      exact hserver i
    · intro sw t i srv hsw hpc
      cases hsw
      cases hpc
  unfold step at ht
  dsimp only at ht
  split at ht
  · rename_i hk
    split at ht
    · rename_i i
      split at ht
      · rename_i hsrv
        cases ht
        refine hfresh _ hk fun j hj => ?_
        cases hj
        rw [hsrv]
        rfl
      · cases ht
    · cases ht
      exact hfresh _ hk nofun
  · cases ht

theorem newChat_inv {chat : Chat} {t : St} (h : Inv s) (ht : step s (.newChat chat) = some t) : Inv t := by
  unfold step at ht
  dsimp only at ht
  split at ht
  · rename_i hnew
    cases ht
    obtain ⟨hfree, hprofile⟩ := hnew
    have hsame : ∀ d, (s.assigned d).isSome → St.assigned { s with chats := chat :: s.chats } d = s.assigned d := by
      intro d hd
      have hne : chat.id ≠ d := by
        intro hid
        rw [hid, Option.isNone_iff_eq_none] at hfree
        rw [hfree] at hd
        cases hd
      unfold St.assigned
      rw [List.find?_cons_of_neg (by simpa using hne)]
    refine ⟨?_, ?_, h.resolves, h.caller, ?_, ?_, h.used⟩
    · intro c hc
      rcases List.mem_cons.mp hc with rfl | hc
      · exact hprofile
      · exact h.foreignKey c hc
    · intro i srv hsrv
      rw [hsame _ (h.row i srv hsrv)]
      exact h.row i srv hsrv
    · intro k sw t i srv hk hpc hi hsrv
      rw [hsame _ (h.row i srv hsrv)]
      exact h.pending k sw t i srv hk hpc hi hsrv
    · intro i srv hne hsrv hres
      rw [hsame _ (h.row i srv hsrv)]
      exact h.cached i srv hne hsrv hres
  · cases ht

theorem step_inv {e : Ev} {t : St} (h : Inv s) (hok : Own s e) (ht : step s e = some t) : Inv t := by
  cases e with
  | boot i chatId => exact boot_inv h ht
  | resolve i => exact resolve_inv h ht
  | resolveDefault i => exact resolveDefault_inv h ht
  | listen i => exact listen_inv h ht
  | register i =>
    unfold step at ht
    dsimp only at ht
    split at ht
    · cases ht
      exact ⟨h.foreignKey, h.row, h.resolves, h.caller, h.pending, h.cached, h.used⟩
    · cases ht
  | startFails i => exact startFails_inv h ht
  | stop => exact stop_inv h ht
  | toolCall i => exact toolCall_inv h hok ht
  | call k caller profileName => exact call_inv h ht
  | advance k => exact advance_inv h hok ht
  | fail k executed => exact fail_inv h hok ht
  | assign chatId profileId => exact h.update hok ht
  | newChat chat => exact newChat_inv h ht
  | setProfiles profiles =>
    unfold step at ht
    dsimp only at ht
    split at ht
    · rename_i hfk
      cases ht
      exact ⟨hfk, h.row, h.resolves, h.caller, h.pending, h.cached, h.used⟩
    · cases ht

end Steps

/-! ## Runs -/

/-- The foreign key of `chats`. -/
def ForeignKey (profiles : List Profile) (chats : List Chat) : Prop :=
  ∀ c ∈ chats, (profiles.find? (·.id == c.profileId)).isSome

theorem inv_init {profiles : List Profile} {chats : List Chat} (hfk : ForeignKey profiles chats) :
    Inv (orchestrator profiles chats).init where
  foreignKey := hfk
  row _ _ hi := by cases hi
  resolves _ _ hi := by cases hi
  caller _ _ _ hk := by cases hk
  pending _ _ _ _ _ hk := by cases hk
  cached _ _ _ hi := by cases hi
  used _ hu := by cases hu

/-- However servers start and stop, calls come and switches interleave: as long as a chat
    with a server that has read its profile is given another only by that server's own
    tool, and no call of the server, no other UPDATE and no failure comes between the tool's
    UPDATE and its end, every call uses the profile the chat is assigned to at the time. -/
theorem calls_use_the_profile (profiles : List Profile) (chats : List Chat) (hfk : ForeignKey profiles chats) (s : St)
    (hs : Reach (orchestrator profiles chats) Own s) : ∀ u ∈ s.uses, u.assigned = some u.profileId := by
  have hinv : Inv s := by
    refine hs.inv (inv_init hfk) ?_
    intro s e t _ h hok ht
    exact step_inv h hok ht
  exact hinv.used

/-! ## Concrete runs -/

def twoProfiles : List Profile := [⟨0, "default", none, true, 1, 1⟩, ⟨1, "work", none, false, 2, 2⟩]

def oneChat : List Chat := [⟨"chat", 0⟩]

def started : List Ev := [.boot 0 "chat", .resolve 0, .listen 0, .register 0]

/-- A tool call, `switch_chat_profile work`, and another tool call. -/
def switchedByTool : List Ev := started ++
  [.toolCall 0, .call 0 (.tool 0) "work", .advance 0, .advance 0, .advance 0, .advance 0, .advance 0, .toolCall 0]

/-- No other switch is under way. -/
def St.OnlySwitch (s : St) (k : Nat) : Prop := ∀ l, l ≠ k → s.switches l = none

theorem own_toolCall {s : St} {k i : Nat} (honly : s.OnlySwitch k) (hk : s.switches k = none) : Own s (.toolCall i) := by
  intro hbetween
  obtain ⟨l, sw, t, hl, -⟩ := hbetween
  by_cases hlk : l = k
  · rw [hlk, hk] at hl
    cases hl
  · rw [honly l hlk] at hl
    cases hl

theorem own_advance {s : St} {k : Nat} {sw : Switch} (hk : s.switches k = some sw) (hpc : ∀ t, sw.pc ≠ .update t) :
    Own s (.advance k) := by
  intro sw' t chatId hk' _ hpc'
  obtain rfl := Option.some.inj (hk.symm.trans hk')
  exact absurd hpc' (hpc t)

/-- The only switch, by the tool of the only server, assigns. -/
theorem own_update {s : St} {k i : Nat} {profileName : String} {t : Profile} (honly : s.OnlySwitch k)
    (hk : s.switches k = some ⟨.tool i, profileName, .update t⟩) (hserver : ∀ j, j ≠ i → s.servers j = none) :
    Own s (.advance k) := by
  intro sw t' chatId hk' _ hpc
  obtain rfl := Option.some.inj (hk.symm.trans hk')
  refine ⟨fun j srv _ _ hbetween => ?_, fun j srv hj _ _ hne => ?_⟩
  · obtain ⟨l, sw, t, hl, hprevious, -⟩ := hbetween
    by_cases hlk : l = k
    · rw [hlk, hk] at hl
      obtain rfl := Option.some.inj hl
      cases hprevious
    · rw [honly l hlk] at hl
      cases hl
  · by_cases hji : j = i
    · exact absurd (congrArg some hji.symm) hne
    · rw [hserver j hji] at hj
      cases hj

theorem calls_use_the_profile_switched_by_tool : ∃ s, Reach (orchestrator twoProfiles oneChat) Own s ∧
    s.uses = [⟨0, 1, some 1⟩, ⟨0, 0, some 0⟩] ∧ ∀ u ∈ s.uses, u.assigned = some u.profileId := by
  have hmeets : Meets (M := orchestrator twoProfiles oneChat) Own (orchestrator twoProfiles oneChat).init switchedByTool := by
    refine And.intro trivial (And.intro trivial (And.intro trivial (And.intro trivial (And.intro (own_toolCall (k := 0) ?_ rfl)
      (And.intro trivial (And.intro (own_advance rfl ?_) (And.intro (own_advance rfl ?_) (And.intro (own_advance rfl ?_)
      (And.intro (own_update ?_ rfl ?_) (And.intro (own_advance rfl ?_) (And.intro (own_toolCall (k := 0) ?_ rfl)
      trivial)))))))))))
    · exact fun _ _ => rfl
    · exact fun _ h => by cases h
    · exact fun _ h => by cases h
    · exact fun _ h => by cases h
    · exact fun l hl => by simp [orchestrator, St.setSwitch, St.setServer, hl]
    · exact fun j hj => by simp [orchestrator, St.setSwitch, St.setServer, hj]
    · exact fun _ h => by cases h
    · exact fun l _ => by simp [orchestrator, St.setSwitch, St.setServer, St.setChatProfile]
  obtain ⟨s, hs, hp⟩ := reach_any (M := orchestrator twoProfiles oneChat) (C := Own)
    (P := fun s => decide (s.uses = [⟨0, 1, some 1⟩, ⟨0, 0, some 0⟩])) _ hmeets (by decide)
  exact ⟨s, hs, of_decide_eq_true hp, calls_use_the_profile twoProfiles oneChat (by unfold ForeignKey; decide) s hs⟩

/-- `/profile switch work`, then a tool call. -/
def switchedByCommand : List Ev := started ++
  [.call 0 (.command "chat") "work", .advance 0, .advance 0, .advance 0, .advance 0, .toolCall 0]

theorem a_switch_by_command_is_not_seen : ∃ s, Reach (orchestrator twoProfiles oneChat) Free s ∧
    s.uses = [⟨0, 0, some 1⟩] := by
  obtain ⟨s, hs, hp⟩ := reach_any (M := orchestrator twoProfiles oneChat) (C := Free)
    (P := fun s => decide (s.uses = [⟨0, 0, some 1⟩])) switchedByCommand (meets_free _ _) (by decide)
  exact ⟨s, hs, of_decide_eq_true hp⟩

end FlowHelm.ProfileCache
