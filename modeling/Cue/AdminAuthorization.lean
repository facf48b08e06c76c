import Cue.Api.AdminAPI
import Mathlib.Data.List.Infix

/-! What the admin API answers is what some version of the auth file says. The
answer is not always that of the present file: a load that looked at the file long
ago may put back what it read in the moment between another request's comparison and
its look at the tokens. No version older than that can decide, and without such a
load under way no version older than the request itself. -/
namespace Cue.Api
open Cue.Lib

/-- What `authMiddleware` answers when nothing comes between and the file is read
for the request itself. -/
def AuthFile.authMiddleware (file : AuthFile) (header : String) (requiredRoles : List String) : AuthReply :=
  if header = "" then .error 401 (errorBody "missing authorization header")
  else authorize (file.config.bind (·.role (bearerToken header))) requiredRoles

def LoadPhase.stat : LoadPhase → Option Int
  | .called | .returned _ => none
  | .statted modTime | .reading modTime | .storing modTime _ => some modTime

def AuthPhase.load : AuthPhase → Option LoadPhase
  | .loading _ load => some load
  | .editing | .received _ _ | .replied _ => none

namespace AdminAPI

variable {api api' : AdminAPI} {load load' : LoadPhase} {k c : Nat} {m : Int} {config : AuthConfig}

/-! ### The versions of the file -/

section Versions

variable {V : Type} {f : AuthFile → Option V} {v : V}

/-- The file had this, as its version `k`. -/
def Had (api : AdminAPI) (f : AuthFile → Option V) (k : Nat) (v : V) : Prop :=
  ∃ file, api.versions[k]? = some file ∧ f file = some v

theorem getElem?_version (api : AdminAPI) : api.versions[api.version]? = some api.authFile := by
  simp [versions, version]

theorem had_version (now : f api.authFile = some v) : api.Had f api.version v := ⟨_, api.getElem?_version, now⟩

theorem getElem?_grow {file : AuthFile} (grown : api.versions <+: api'.versions) (there : api.versions[k]? = some file) :
    api'.versions[k]? = some file := by
  obtain ⟨rest, appended⟩ := grown
  obtain ⟨inside, -⟩ := List.getElem?_eq_some_iff.mp there
  rw [← appended, List.getElem?_append_left inside, there]

theorem Had.grow (grown : api.versions <+: api'.versions) (had : api.Had f k v) : api'.Had f k v := by
  obtain ⟨file, there, shows⟩ := had
  exact ⟨file, getElem?_grow grown there, shows⟩

theorem Had.le_version (had : api.Had f k v) : k ≤ api.version := by
  obtain ⟨file, there, -⟩ := had
  have inside := (List.getElem?_eq_some_iff.mp there).1
  simp only [versions, List.length_append, List.length_cons, List.length_nil] at inside
  exact Nat.le_of_lt_succ inside

theorem version_mono (grown : api.versions <+: api'.versions) : api.version ≤ api'.version := by
  simpa [versions, version] using grown.length_le

end Versions

/-- Writing the file gives it a later time than it had. -/
def Dated (api : AdminAPI) : Prop :=
  (∀ file ∈ api.versions, file.modTime.all (decide <| 0 < ·) = true) ∧ api.versions.Pairwise (·.before · = true)

theorem Dated.positive (dated : api.Dated) (had : api.Had AuthFile.modTime k m) : 0 < m := by
  obtain ⟨file, there, stamped⟩ := had
  simpa [stamped] using dated.1 file (List.mem_of_getElem? there)

/-- A later time stands on a later version. -/
theorem Dated.le_of_le {i j : Nat} {n : Int} (dated : api.Dated) (first : api.Had AuthFile.modTime i m)
    (second : api.Had AuthFile.modTime j n) (ordered : m ≤ n) : i ≤ j := by
  obtain ⟨file, there, stamped⟩ := first
  obtain ⟨other, elsewhere, stamped'⟩ := second
  by_contra later
  obtain ⟨inside, rfl⟩ := List.getElem?_eq_some_iff.mp there
  obtain ⟨inside', rfl⟩ := List.getElem?_eq_some_iff.mp elsewhere
  have less := List.pairwise_iff_getElem.mp dated.2 j i inside' inside (by omega)
  simp only [AuthFile.before, stamped, stamped', decide_eq_true_eq] at less
  omega

theorem Dated.write {file : AuthFile} (dated : api.Dated) (follows : file.follows api.versions = true) :
    Dated { api with earlier := api.versions, authFile := file } := by
  obtain ⟨positive, behind⟩ := Bool.and_eq_true_iff.mp follows
  refine ⟨fun other there => ?_, List.pairwise_append.mpr ⟨dated.2, List.pairwise_singleton _ _, ?_⟩⟩
  · rcases List.mem_append.mp there with old | new
    · exact dated.1 other old
    · rwa [List.mem_singleton.mp new]
  · simpa using behind

/-- What is loaded was read after the stat whose time is kept with it. -/
def Cached (api : AdminAPI) : Prop :=
  (api.authConfig = none ∧ api.authModTime = 0) ∨ ∃ k c config, api.authConfig = some config ∧ k ≤ c ∧
    api.Had AuthFile.modTime k api.authModTime ∧ api.Had AuthFile.config c config

/-! ### One section of a load -/

/-- What a section of `loadAuthConfig` does. -/
inductive Loads (api : AdminAPI) : LoadPhase → AdminAPI → LoadPhase → Prop where
  | unstatted : api.authFile.config = none → Loads api .called api (.returned false)
  | stat {m : Int} : api.authFile.modTime = some m → Loads api .called api (.statted m)
  | changed {m : Int} : Loads api (.statted m) api (.reading m)
  | current {m : Int} : m ≤ api.authModTime → Loads api (.statted m) api (.returned true)
  | unread {m : Int} : api.authFile.config = none → Loads api (.reading m) api (.returned false)
  | read {m : Int} {config : AuthConfig} :
      api.authFile.config = some config → Loads api (.reading m) api (.storing m config)
  | store {m : Int} {config : AuthConfig} :
      Loads api (.storing m config) { api with authConfig := some config, authModTime := m } (.returned true)

theorem loadAuthConfig_loads (loaded : api.loadAuthConfig load = some (api', load')) : Loads api load api' load' := by
  cases load with
  | called =>
    simp only [loadAuthConfig] at loaded
    split at loaded
    · rename_i gone
      cases loaded
      exact .unstatted (by cases file : api.authFile <;> simp_all [AuthFile.modTime, AuthFile.config])
    · cases loaded
      exact .stat ‹_›
  | statted m =>
    simp only [loadAuthConfig] at loaded
    split at loaded
    · cases loaded
      exact .changed
    · cases loaded
      exact .current (by omega)
  | reading m =>
    simp only [loadAuthConfig] at loaded
    split at loaded
    · cases loaded
      exact .unread ‹_›
    · cases loaded
      exact .read ‹_›
  | storing m config =>
    cases loaded
    exact .store
  | returned ok => cases loaded

theorem Loads.versions_eq (loads : Loads api load api' load') : api'.versions = api.versions := by
  cases loads <;> rfl

/-! ### What a load knows -/

/-- What holds of a load that began when the file was at version `since`: the version
it looked at, the one it read, and at its end one that may decide. -/
def Carries (api : AdminAPI) (since : Nat) (recent : Nat → Prop) : LoadPhase → Prop
  | .called => True
  | .statted m | .reading m => ∃ k, since ≤ k ∧ api.Had AuthFile.modTime k m
  | .storing m config =>
    ∃ k c, since ≤ k ∧ k ≤ c ∧ api.Had AuthFile.modTime k m ∧ api.Had AuthFile.config c config
  | .returned true => ∃ c config, api.authConfig = some config ∧ api.Had AuthFile.config c config ∧ recent c
  | .returned false => ∃ c file, api.versions[c]? = some file ∧ file.config = none ∧ since ≤ c

variable {since : Nat} {recent : Nat → Prop}

/-- A section of the load itself. The comparison is where the times matter: a file
that is not newer than what was loaded was loaded at this version or a later one. -/
theorem Carries.own (dated : api.Dated) (cached : api.Cached) (begun : since ≤ api.version)
    (later : ∀ c, since ≤ c → recent c) (carries : api.Carries since recent load)
    (loads : Loads api load api' load') : api'.Carries since recent load' := by
  cases loads with
  | unstatted failed | unread failed => exact ⟨api.version, api.authFile, api.getElem?_version, failed, begun⟩
  | stat there => exact ⟨api.version, begun, had_version there⟩
  | changed => exact carries
  | current unchanged =>
    obtain ⟨v, began, looked⟩ := carries
    rcases cached with ⟨-, zero⟩ | ⟨k, c, config, loaded, ordered, stamped, wrote⟩
    · have := dated.positive looked
      omega
    · have : v ≤ k := dated.le_of_le looked stamped unchanged
      exact ⟨c, config, loaded, wrote, later c (by omega)⟩
  | read there =>
    obtain ⟨k, began, stamped⟩ := carries
    exact ⟨k, api.version, began, stamped.le_version, stamped, had_version there⟩
  | @store m config =>
    obtain ⟨k, c, began, ordered, -, wrote⟩ := carries
    exact ⟨c, config, rfl, wrote, later c (by omega)⟩

/-- A section of someone else. -/
theorem Carries.others (grown : api.versions <+: api'.versions)
    (kept : api'.authConfig = api.authConfig ∨
      ∃ c config, api'.authConfig = some config ∧ api'.Had AuthFile.config c config ∧ recent c)
    (carries : api.Carries since recent load) : api'.Carries since recent load := by
  match load, carries with
  | .called, _ => trivial
  | .statted m, ⟨k, began, stamped⟩ | .reading m, ⟨k, began, stamped⟩ => exact ⟨k, began, stamped.grow grown⟩
  | .storing m config, ⟨k, c, began, ordered, stamped, wrote⟩ =>
    exact ⟨k, c, began, ordered, stamped.grow grown, wrote.grow grown⟩
  | .returned true, ⟨c, config, loaded, wrote, decides⟩ =>
    rcases kept with same | replaced
    · exact ⟨c, config, same.trans loaded, wrote.grow grown, decides⟩
    · exact replaced
  | .returned false, ⟨c, file, there, failed, began⟩ => exact ⟨c, file, getElem?_grow grown there, failed, began⟩

theorem Carries.stamped (carries : api.Carries since recent load) (looked : load.stat = some m) :
    ∃ k, api.Had AuthFile.modTime k m := by
  match load, carries with
  | .statted _, ⟨k, _, stamped⟩ | .reading _, ⟨k, _, stamped⟩ | .storing _ _, ⟨k, _, _, _, stamped, _⟩ =>
    cases looked
    exact ⟨k, stamped⟩
  | .called, _ | .returned _, _ => cases looked

/-! ### One section of a thread -/

/-- What a section of a thread does. -/
inductive Acts (api : AdminAPI) : AuthPhase → AuthOp → AdminAPI → AuthPhase → Prop where
  | write {file : AuthFile} :
      Acts api .editing (.write file) { api with earlier := api.versions, authFile := file } .editing
  | refuse {roles : List String} :
      Acts api (.received "" roles) .proceed api (.replied (.error 401 (errorBody "missing authorization header")))
  | begin {header : String} {roles : List String} : header ≠ "" →
      Acts api (.received header roles) .proceed api (.loading (some (bearerToken header, roles)) .called)
  | load {request : Option (String × List String)} {load load' : LoadPhase} {api' : AdminAPI} :
      Loads api load api' load' → Acts api (.loading request load) .proceed api' (.loading request load')
  | reply {token : String} {roles : List String} {ok : Bool} :
      Acts api (.loading (some (token, roles)) (.returned ok)) .proceed api
        (.replied (authorize (api.authenticate token ok) roles))

variable {phase phase' : AuthPhase} {op : AuthOp}

theorem act_acts (acted : api.act phase op = some (api', phase')) : Acts api phase op api' phase' := by
  unfold act at acted
  split at acted
  · cases acted
    exact .write
  · split at acted
    · rename_i empty
      cases acted
      cases empty
      exact .refuse
    · cases acted
      exact .begin ‹_›
  · cases acted
    exact .reply
  · obtain ⟨⟨next, load'⟩, loaded, same⟩ := Option.map_eq_some_iff.mp acted
    cases same
    exact .load (loadAuthConfig_loads loaded)
  · cases acted

theorem Acts.grown (acts : Acts api phase op api' phase') : api.versions <+: api'.versions := by
  cases acts with
  | write => exact List.prefix_append _ _
  | load loads => rw [loads.versions_eq]
  | refuse | begin | reply => exact List.prefix_refl _

/-- Only the last section of a load changes what is loaded. -/
theorem Acts.loaded (acts : Acts api phase op api' phase') :
    api'.authConfig = api.authConfig ∨
      ∃ m config, phase.load = some (.storing m config) ∧ api'.authConfig = some config := by
  cases acts with
  | load loads =>
    cases loads with
    | @store m config => exact .inr ⟨m, config, rfl, rfl⟩
    | _ => exact .inl rfl
  | write | refuse | begin | reply => exact .inl rfl

/-- A load that has looked at the file had done so before, or does now. -/
theorem Acts.looked (acts : Acts api phase op api' phase') (loading : phase'.load = some load')
    (looked : load'.stat = some m) :
    (∃ load, phase.load = some load ∧ load.stat = some m) ∨ api.Had AuthFile.modTime api.version m := by
  cases acts with
  | @load _ load _ _ loads =>
    cases loading
    cases loads with
    | stat there =>
      cases looked
      exact .inr (had_version there)
    | changed | read => exact .inl ⟨_, rfl, looked⟩
    | unstatted | current | unread | store => cases looked
  | begin =>
    cases loading
    cases looked
  | write | refuse | reply => cases loading

end AdminAPI

/-! ### Runs -/

section Runs

variable {T : Type}

/-- Whoever writes the file gives it a later time than it had. -/
def Dates (threads : Threads T AdminAPI AuthPhase) (op : T × AuthOp) : Prop :=
  match op.2 with
  | .proceed => True
  | .write file => file.follows threads.shared.versions = true

instance (threads : Threads T AdminAPI AuthPhase) (op : T × AuthOp) : Decidable (Dates threads op) :=
  match op with
  | (_, .proceed) => .isTrue trivial
  | (_, .write file) => inferInstanceAs (Decidable (file.follows threads.shared.versions = true))

/-- The load of `u` looked at version `k` of the file and has not stored anything yet. -/
def UnderWay (s : Threads T AdminAPI AuthPhase) (u : T) (k : Nat) : Prop :=
  ∃ load m, (s.locals u).load = some load ∧ load.stat = some m ∧ s.shared.Had AuthFile.modTime k m

/-- Not older than the file was in this state, or than what a load looked at that was
under way in it. -/
def Recent (s : Threads T AdminAPI AuthPhase) (c : Nat) : Prop :=
  s.shared.version ≤ c ∨ ∃ u k, UnderWay s u k ∧ k ≤ c

/-- What someone relies on who began at version `since`: the versions that may decide
for them are those from there on and some more, and no load under way will put another
one into place. -/
structure Vantage (s : Threads T AdminAPI AuthPhase) (since : Nat) (recent : Nat → Prop) : Prop where
  begun : since ≤ s.shared.version
  later : ∀ c, since ≤ c → recent c
  upward : ∀ c d, recent c → c ≤ d → recent d
  pending : ∀ u load m, (s.locals u).load = some load → load.stat = some m →
    ∃ k, s.shared.Had AuthFile.modTime k m ∧ recent k

variable [DecidableEq T] {file : AuthFile} {callers : T → AuthCaller} {ops : List (T × AuthOp)}
  {s s' s₀ : Threads T AdminAPI AuthPhase} {t u : T}

/-- The runs of an API that was made when this file was there. -/
def AuthRuns (file : AuthFile) (callers : T → AuthCaller) (ops : List (T × AuthOp)) (s : Threads T AdminAPI AuthPhase) :
    Prop :=
  Run (fun s op s' => s.step AdminAPI.act op = some s') (fun _ => Dates) ⟨.new file, fun t => (callers t).begin⟩ ops s

/-- In this state of the run the request came in. -/
def CameIn (file : AuthFile) (callers : T → AuthCaller) (ops : List (T × AuthOp)) (t : T)
    (s₀ : Threads T AdminAPI AuthPhase) : Prop :=
  ∃ before after, ops = before ++ (t, .proceed) :: after ∧ AuthRuns file callers before s₀ ∧
    s₀.locals t = (callers t).begin

theorem CameIn.append (came : CameIn file callers ops t s₀) (op : T × AuthOp) :
    CameIn file callers (ops ++ [op]) t s₀ := by
  obtain ⟨before, after, rfl, run, begun⟩ := came
  exact ⟨before, after ++ [op], by simp, run, begun⟩

/-- What holds of a thread that stands there. -/
def Stands (file : AuthFile) (callers : T → AuthCaller) (ops : List (T × AuthOp)) (s : Threads T AdminAPI AuthPhase)
    (t : T) : AuthPhase → Prop
  | .editing => True
  | .received header roles => callers t = .request header roles
  | .loading request load => ∃ since recent, Vantage s since recent ∧ s.shared.Carries since recent load ∧
      ∀ token roles, request = some (token, roles) → ∃ header s₀, callers t = .request header roles ∧ header ≠ "" ∧
        token = bearerToken header ∧ CameIn file callers ops t s₀ ∧ ∀ c, recent c → Recent s₀ c
  | .replied reply => ∃ header roles s₀ c old, callers t = .request header roles ∧ CameIn file callers ops t s₀ ∧
      s.shared.versions[c]? = some old ∧ reply = old.authMiddleware header roles ∧ Recent s₀ c

structure Sound (file : AuthFile) (callers : T → AuthCaller) (ops : List (T × AuthOp))
    (s : Threads T AdminAPI AuthPhase) : Prop where
  dated : s.shared.Dated
  cached : s.shared.Cached
  stands : ∀ t, Stands file callers ops s t (s.locals t)

theorem Sound.carries {load : LoadPhase} (sound : Sound file callers ops s) (loading : (s.locals u).load = some load) :
    ∃ since recent, s.shared.Carries since recent load := by
  have stands := sound.stands u
  cases place : s.locals u with
  | loading =>
    rw [place] at loading stands
    cases loading
    obtain ⟨since, recent, -, carries, -⟩ := stands
    exact ⟨since, recent, carries⟩
  | editing | received | replied =>
    rw [place] at loading
    cases loading

section Step

variable {op : AuthOp} {api' : AdminAPI} {phase phase' : AuthPhase} {since : Nat} {recent : Nat → Prop}
  (sound : Sound file callers ops s) (acts : AdminAPI.Acts s.shared (s.locals u) op api' phase')

include acts in
theorem Vantage.step (vantage : Vantage s since recent) :
    Vantage ⟨api', Function.update s.locals u phase'⟩ since recent where
  begun := vantage.begun.trans (AdminAPI.version_mono acts.grown)
  later := vantage.later
  upward := vantage.upward
  pending := by
    intro v load m loading looked
    have before (there : ∃ load, (s.locals v).load = some load ∧ load.stat = some m) :
        ∃ k, api'.Had AuthFile.modTime k m ∧ recent k := by
      obtain ⟨load, loading, looked⟩ := there
      obtain ⟨k, stamped, decides⟩ := vantage.pending v load m loading looked
      exact ⟨k, stamped.grow acts.grown, decides⟩
    by_cases own : v = u
    · subst own
      simp only [Function.update_self] at loading
      rcases acts.looked loading looked with there | stamped
      · exact before there
      · exact ⟨s.shared.version, stamped.grow acts.grown, vantage.later _ vantage.begun⟩
    · simp only [Function.update_of_ne own] at loading
      exact before ⟨load, loading, looked⟩

include sound acts in
/-- What a step puts into place may decide. -/
theorem Vantage.decides (vantage : Vantage s since recent) :
    api'.authConfig = s.shared.authConfig ∨
      ∃ c config, api'.authConfig = some config ∧ api'.Had AuthFile.config c config ∧ recent c := by
  rcases acts.loaded with same | ⟨m, config, storing, loaded⟩
  · exact .inl same
  · obtain ⟨_, _, k, c, -, ordered, stamped, wrote⟩ := sound.carries storing
    obtain ⟨j, looked, decides⟩ := vantage.pending u _ m storing rfl
    have before : j ≤ k := sound.dated.le_of_le looked stamped (Int.le_refl m)
    exact .inr ⟨c, config, loaded, wrote.grow acts.grown, vantage.upward j c decides (before.trans ordered)⟩

include sound acts in
/-- What holds of the threads that do not step. -/
theorem Stands.others (stands : Stands file callers ops s t phase) :
    Stands file callers (ops ++ [(u, op)]) ⟨api', Function.update s.locals u phase'⟩ t phase := by
  cases phase with
  | editing => trivial
  | received header roles => exact stands
  | loading request load =>
    obtain ⟨since, recent, vantage, carries, asked⟩ := stands
    refine ⟨since, recent, vantage.step acts, carries.others acts.grown (vantage.decides sound acts), ?_⟩
    intro token roles mine
    obtain ⟨header, s₀, caller, headed, same, came, within⟩ := asked token roles mine
    exact ⟨header, s₀, caller, headed, same, came.append _, within⟩
  | replied reply =>
    obtain ⟨header, roles, s₀, c, old, caller, came, there, answered, decides⟩ := stands
    exact ⟨header, roles, s₀, c, old, caller, came.append _, AdminAPI.getElem?_grow acts.grown there, answered, decides⟩

/-- A request that comes in: what is under way now is what it may find in place later. -/
theorem Vantage.begin (sound : Sound file callers ops s) (token : String) (roles : List String) :
    Vantage ⟨s.shared, Function.update s.locals u (.loading (some (token, roles)) .called)⟩
      s.shared.version (Recent s) where
  begun := le_rfl
  later _ ordered := .inl ordered
  upward _ _ decides ordered := by
    rcases decides with later | ⟨v, k, underWay, less⟩
    · exact .inl (later.trans ordered)
    · exact .inr ⟨v, k, underWay, less.trans ordered⟩
  pending := by
    intro v load m loading looked
    by_cases own : v = u
    · subst own
      simp only [Function.update_self] at loading
      cases loading
      cases looked
    · simp only [Function.update_of_ne own] at loading
      obtain ⟨_, _, carries⟩ := sound.carries loading
      obtain ⟨k, stamped⟩ := carries.stamped looked
      exact ⟨k, stamped, .inr ⟨v, k, ⟨load, m, loading, looked, stamped⟩, le_rfl⟩⟩

include sound in
/-- What holds of the thread that steps. -/
theorem Stands.own (run : AuthRuns file callers ops s) (here : s.locals u = phase)
    (acts : AdminAPI.Acts s.shared phase op api' phase') (stands : Stands file callers ops s u phase) :
    Stands file callers (ops ++ [(u, op)]) ⟨api', Function.update s.locals u phase'⟩ u phase' := by
  have came (begun : phase = (callers u).begin) : CameIn file callers (ops ++ [(u, .proceed)]) u s :=
    ⟨ops, [], rfl, run, here.trans begun⟩
  cases acts with
  | write => trivial
  | @refuse roles =>
    have caller : callers u = .request "" roles := stands
    exact ⟨"", roles, s, s.shared.version, s.shared.authFile, caller, came (by rw [caller]; rfl),
      s.shared.getElem?_version, rfl, .inl le_rfl⟩
  | @begin header roles headed =>
    have caller : callers u = .request header roles := stands
    refine ⟨_, _, .begin sound _ _, trivial, fun token roles mine => ?_⟩
    cases mine
    exact ⟨header, s, caller, headed, rfl, came (by rw [caller]; rfl), fun _ => id⟩
  | load loads =>
    obtain ⟨since, recent, vantage, carries, asked⟩ := stands
    refine ⟨since, recent, vantage.step (by rw [here]; exact .load loads),
      carries.own sound.dated sound.cached vantage.begun vantage.later loads, fun token roles mine => ?_⟩
    obtain ⟨header, s₀, caller, headed, same, came, within⟩ := asked token roles mine
    exact ⟨header, s₀, caller, headed, same, came.append _, within⟩
  | @reply token roles ok =>
    obtain ⟨since, recent, vantage, carries, asked⟩ := stands
    obtain ⟨header, s₀, caller, headed, rfl, arrived, within⟩ := asked token roles rfl
    cases ok with
    | true =>
      obtain ⟨c, config, loaded, ⟨old, there, held⟩, decides⟩ := carries
      refine ⟨header, roles, s₀, c, old, caller, arrived.append _, there, ?_, within c decides⟩
      simp [AuthFile.authMiddleware, headed, AdminAPI.authenticate, loaded, held]
    | false =>
      obtain ⟨c, old, there, failed, began⟩ := carries
      refine ⟨header, roles, s₀, c, old, caller, arrived.append _, there, ?_, within c (vantage.later c began)⟩
      simp [AuthFile.authMiddleware, headed, AdminAPI.authenticate, failed]

end Step

theorem sound_start (follows : file.follows [] = true) :
    Sound file callers [] ⟨.new file, fun t => (callers t).begin⟩ where
  dated := ⟨by simpa [AdminAPI.versions, AdminAPI.new, AuthFile.follows] using follows, List.pairwise_singleton _ _⟩
  cached := .inl ⟨rfl, rfl⟩
  stands := by
    intro t
    cases caller : callers t with
    | operator | request => simp [caller, AuthCaller.begin, Stands]
    | newAdminAPI =>
      simp only [caller, AuthCaller.begin]
      refine ⟨0, fun _ => True, ⟨Nat.zero_le _, fun _ _ => trivial, fun _ _ _ _ => trivial, ?_⟩, trivial, by simp⟩
      intro u load m loading looked
      cases other : callers u with
      | newAdminAPI =>
        simp only [other] at loading
        cases loading
        cases looked
      | operator | request => simp [other, AuthPhase.load] at loading

theorem sound_step {op : T × AuthOp} (run : AuthRuns file callers ops s) (sound : Sound file callers ops s)
    (dates : Dates s op) (stepped : s.step AdminAPI.act op = some s') : Sound file callers (ops ++ [op]) s' := by
  obtain ⟨u, op⟩ := op
  obtain ⟨api', phase', acted, rfl⟩ := Threads.step_eq_some.mp stepped
  have acts := AdminAPI.act_acts acted
  have stands (t : T) : Stands file callers (ops ++ [(u, op)]) ⟨api', Function.update s.locals u phase'⟩ t
      (Function.update s.locals u phase' t) := by
    by_cases own : t = u
    · subst own
      simp only [Function.update_self]
      exact (sound.stands t).own sound run rfl acts
    · simp only [Function.update_of_ne own]
      exact (sound.stands t).others sound acts
  have before := sound.stands u
  generalize s.locals u = phase at acts before
  cases acts with
  | write =>
    refine ⟨sound.dated.write dates, ?_, stands⟩
    rcases sound.cached with empty | ⟨k, c, config, loaded, ordered, stamped, wrote⟩
    · exact .inl empty
    · exact .inr ⟨k, c, config, loaded, ordered, stamped.grow (List.prefix_append _ _),
        wrote.grow (List.prefix_append _ _)⟩
  | load loads =>
    obtain ⟨_, _, -, carries, -⟩ := before
    cases loads with
    | store =>
      obtain ⟨k, c, -, ordered, stamped, wrote⟩ := carries
      exact ⟨sound.dated, .inr ⟨k, c, _, rfl, ordered, stamped, wrote⟩, stands⟩
    | _ => exact ⟨sound.dated, sound.cached, stands⟩
  | refuse | begin | reply => exact ⟨sound.dated, sound.cached, stands⟩

/-- Every answer is the one that a version of the file gives, as if the file had been
read for this request alone. That version is not older than the file was when the
request came in, or than the one a load had looked at that was under way then: with
no load under way, whoever was taken off the file before is not let in. -/
theorem answers_follow_recent_file {reply : AuthReply} (follows : file.follows [] = true)
    (run : AuthRuns file callers ops s) (replied : s.locals t = .replied reply) :
    ∃ header roles s₀ c old, callers t = .request header roles ∧ CameIn file callers ops t s₀ ∧
      s.shared.versions[c]? = some old ∧ reply = old.authMiddleware header roles ∧
      (s₀.shared.version ≤ c ∨ ∃ u k, UnderWay s₀ u k ∧ k ≤ c) := by
  have sound : Sound file callers ops s := by
    clear replied
    induction run with
    | start => exact sound_start follows
    | next earlier dates stepped ih => exact sound_step earlier ih dates stepped
  have stands := sound.stands t
  rwa [replied] at stands

/-- The first request has read the file when the token is taken off it. The second
loads what is left, the third finds that up to date, and then the first puts back what
it has read: the token of the third is good once more. -/
theorem revoked_token_served :
    ∃ (file : AuthFile) (callers : Nat → AuthCaller) (ops : List (Nat × AuthOp)) (s : Threads Nat AdminAPI AuthPhase),
      AuthRuns file callers ops s ∧ s.locals 3 = .replied .next ∧ s.shared.authFile.config = some ⟨[]⟩ ∧
      ∃ header roles s₀ c old, callers 3 = .request header roles ∧ CameIn file callers ops 3 s₀ ∧
        s.shared.versions[c]? = some old ∧ AuthReply.next = old.authMiddleware header roles ∧
        (s₀.shared.version ≤ c ∨ ∃ u k, UnderWay s₀ u k ∧ k ≤ c) := by
  let file : AuthFile := .present 1 (some ⟨[⟨"secret", "admin"⟩]⟩)
  let callers : Nat → AuthCaller := fun t => if t = 0 then .operator else .request "secret" ["admin"]
  let ops : List (Nat × AuthOp) :=
    List.replicate 4 (1, .proceed) ++ [(0, .write (.present 2 (some ⟨[]⟩)))] ++ List.replicate 5 (2, .proceed) ++
      List.replicate 3 (3, .proceed) ++ [(1, .proceed), (3, .proceed)]
  obtain ⟨s, executed, served, emptied⟩ : ∃ s,
      ops.foldlM (fun s op => if Dates s op then s.step AdminAPI.act op else none)
      (⟨.new file, fun t => (callers t).begin⟩ : Threads Nat AdminAPI AuthPhase) = some s ∧
      s.locals 3 = .replied .next ∧ s.shared.authFile.config = some ⟨[]⟩ := ⟨_, rfl, rfl, rfl⟩
  have run : AuthRuns file callers ops s := Run.of_guarded executed
  exact ⟨file, callers, ops, s, run, served, emptied, answers_follow_recent_file (by decide) run served⟩

end Runs
end Cue.Api
