import PgPool.Lib.Transition
import PgPool.Params.Settings

/-!
# The settings follow the server

The settings are of the process, the tables of the connections.  They follow the session as long as a
connection is reused only while the settings are still those it has reported, and the reports of the
master node, and no others, reach the settings.
-/

namespace PgPool.Params

open Transition

/-! ## What is claimed -/

/-- The settings are those last reported. -/
structure Agrees (s : Settings) (reported : String → Option String) : Prop where
  standardConformingStrings : ∀ v, reported "standard_conforming_strings" = some v →
    s.standardConformingStrings = decide (v = "on")
  serverEncoding : ∀ v, reported "server_encoding" = some v →
    s.serverEncoding = if v = "UTF8" then .utf8 else .sqlAscii
  serverVersionNum : ∀ v, reported "server_version" = some v → s.serverVersionNum = parseVersion v

/-- Each parameter that has been reported is there, once, with the value last reported, and no other. -/
structure Tells (params : List Param) (reported : String → Option String) : Prop where
  distinct : Keyed.Distinct Param.name params
  mem : ∀ p, p ∈ params ↔ reported p.name = some p.value

/-- In every state reached by steps with `P`, the scanner has the settings that the master has last reported
for the connection of the session; and a client that gets a connection of the pool by such a step is told
what the master has last reported for it. -/
def FollowsServer (master : Nat) (P : Child → Event → Prop) : Prop :=
  ∀ s, Run (Child.step master) P Child.init s →
    (∀ c, s.current = some c → Agrees s.settings (s.pool c master).reported) ∧
      ∀ c applicationName t, P s (.reuse c applicationName) →
        Child.step master s (.reuse c applicationName) = some t →
        Tells t.told (t.pool c master).reported

/-! ## The condition -/

/-- The parameters that are settings. -/
def isSetting (name : String) : Bool :=
  name ∈ ["server_version", "server_encoding", "standard_conforming_strings"]

/-- There is room for the parameter. -/
def Room (b : Backend) (name : String) : Prop :=
  (∃ p ∈ b.params, p.name = name) ∨ b.params.length < maxParamItems

/-- The master's replies to the `SET`, which are thrown away, report nothing but the name that is added to
the table, and that name is what the master has last reported. -/
def NameKept (master : Nat) (b : Backend) : Option (String × List (Nat × Param)) → Prop
  | none => True
  | some (name, replies) => Room b "application_name" ∧
      (∀ r ∈ replies, r.1 = master → r.2 = ⟨"application_name", name⟩) ∧
      (b.reported "application_name" = some name ∨ ∃ r ∈ replies, r.1 = master)

/-- The steps that do not meet the defects: a connection is reused while the settings are those that it
has reported; a report of the master is read by one who stores it, as that of the master, and has room in
the table; a report of another node is not taken for the master's, or is not of a setting. -/
def Careful (master : Nat) (s : Child) : Event → Prop
  | .connect _ => True
  | .reuse c applicationName => Agrees s.settings (s.pool c master).reported ∧
      NameKept master (s.pool c master) applicationName
  | .report node virtualMaster reader p => ∀ c, s.current = some c →
      if node = master then
        reader.stores = true ∧ node = virtualMaster ∧ Room (s.pool c master) p.name
      else reader.stores = true → node = virtualMaster → isSetting p.name = false
  | .leave => True

/-! ## The table -/

section

variable {params params' : List Param} {name value : String} {p : Param}

theorem replaceParam_none (h : replaceParam name value params = none) : ∀ p ∈ params, p.name ≠ name := by
  induction params with
  | nil => exact fun _ hp => absurd hp List.not_mem_nil
  | cons p ps ih =>
    unfold replaceParam at h
    split at h
    · cases h
    · rename_i hne
      intro q hq
      obtain rfl | hq := List.mem_cons.mp hq
      · exact hne
      · exact ih (Option.map_eq_none_iff.mp h) q hq

theorem replaceParam_some (h : replaceParam name value params = some params') :
    params'.map Param.name = params.map Param.name ∧ ∃ before p after, params = before ++ p :: after ∧
      params' = before ++ ⟨name, value⟩ :: after ∧ p.name = name := by
  induction params generalizing params' with
  | nil => cases h
  | cons p ps ih =>
    unfold replaceParam at h
    split at h
    · rename_i hname
      obtain rfl := Option.some.inj h
      exact ⟨by simp [hname], [], p, ps, rfl, rfl, hname⟩
    · obtain ⟨ps', hps', rfl⟩ := Option.map_eq_some_iff.mp h
      obtain ⟨hnames, before, q, after, rfl, rfl, hq⟩ := ih hps'
      exact ⟨by rw [List.map_cons, List.map_cons, hnames], p :: before, q, after, rfl, rfl, hq⟩

/-- A table with the parameter just reported, and the others as they were. -/
theorem tells_report {b : Backend} (hdistinct : Keyed.Distinct Param.name params) (hp : p ∈ params)
    (hothers : ∀ q, q.name ≠ p.name → (q ∈ params ↔ b.reported q.name = some q.value)) :
    Tells params (b.report p).reported := by
  refine ⟨hdistinct, ?_⟩
  intro q
  unfold Backend.report
  by_cases hname : q.name = p.name
  · simp only [if_pos hname, Option.some.injEq]
    constructor
    · intro hq
      rw [hdistinct.eq_of_key hq hp hname]
    · intro hvalue
      rwa [Param.ext hname hvalue.symm]
  · simp only [if_neg hname]
    exact hothers q hname

/-- `pool_add_param`, with room in the table. -/
theorem Tells.addParam {b : Backend} (h : Tells b.params b.reported) (hroom : Room b p.name) :
    ∃ params, poolAddParam p.name p.value b.params = some params ∧
      Tells params (b.report p).reported := by
  unfold poolAddParam
  cases hreplace : replaceParam p.name p.value b.params with
  | some params =>
    refine ⟨params, rfl, ?_⟩
    obtain ⟨hnames, before, q, after, hold, hnew, hq⟩ := replaceParam_some hreplace
    have hdistinct : Keyed.Distinct Param.name params := by
      unfold Keyed.Distinct
      rw [hnames]
      exact h.distinct
    refine tells_report hdistinct (by simp [hnew]) ?_
    intro q' hq'
    rw [← h.mem q', hnew, hold, List.mem_append, List.mem_append, List.mem_cons, List.mem_cons]
    have hne : q' ≠ p := fun heq => hq' (congrArg Param.name heq)
    have hne' : q' ≠ q := fun heq => hq' ((congrArg Param.name heq).trans hq)
    exact or_congr_right (by simp [hne, hne'])
  | none =>
    have hnew := replaceParam_none hreplace
    have hlt : ¬ b.params.length ≥ maxParamItems := by
      obtain ⟨q, hq, hname⟩ | hlt := hroom
      · exact absurd hname (hnew q hq)
      · exact Nat.not_le.mpr hlt
    refine ⟨b.params ++ [p], if_neg hlt, tells_report ?_ (by simp) ?_⟩
    · unfold Keyed.Distinct
      rw [List.map_append, List.nodup_append]
      refine ⟨h.distinct, List.nodup_singleton _, ?_⟩
      intro name hname name' hname' heq
      obtain ⟨q, hq, rfl⟩ := List.mem_map.mp hname
      exact hnew q hq (heq.trans (List.mem_singleton.mp hname'))
    · intro q' hq'
      rw [← h.mem q', List.mem_append, List.mem_singleton]
      exact or_iff_left fun heq => hq' (congrArg Param.name heq)

/-! ## The settings -/

variable {s : Settings}

theorem parserSetParam_version : (parserSetParam name value s).serverVersionNum =
    if "server_version" = name then parseVersion value else s.serverVersionNum := by
  unfold parserSetParam
  split
  · rename_i h
    rw [if_pos h.symm]
  · rename_i h
    rw [if_neg (Ne.symm h)]
    split
    · rfl
    · split <;> rfl

theorem parserSetParam_encoding : (parserSetParam name value s).serverEncoding =
    if "server_encoding" = name then (if value = "UTF8" then .utf8 else .sqlAscii)
    else s.serverEncoding := by
  unfold parserSetParam
  split
  · rename_i h
    rw [h]
    rfl
  · split
    · rename_i h
      rw [if_pos h.symm]
    · rename_i h
      rw [if_neg (Ne.symm h)]
      split <;> rfl

theorem parserSetParam_strings : (parserSetParam name value s).standardConformingStrings =
    if "standard_conforming_strings" = name then decide (value = "on")
    else s.standardConformingStrings := by
  unfold parserSetParam
  split
  · rename_i h
    rw [h]
    rfl
  · split
    · rename_i h
      rw [h]
      rfl
    · split
      · rename_i h
        rw [if_pos h.symm]
      · rename_i h
        rw [if_neg (Ne.symm h)]

/-- `parser_set_param` takes over what is reported. -/
theorem Agrees.set {b : Backend} (h : Agrees s b.reported) :
    Agrees (parserSetParam p.name p.value s) (b.report p).reported := by
  refine ⟨?_, ?_, ?_⟩
  · intro v hv
    rw [parserSetParam_strings]
    by_cases hname : "standard_conforming_strings" = p.name
    · rw [if_pos hname, Option.some.inj ((if_pos hname).symm.trans hv)]
    · rw [if_neg hname]
      exact h.standardConformingStrings v ((if_neg hname).symm.trans hv)
  · intro v hv
    rw [parserSetParam_encoding]
    by_cases hname : "server_encoding" = p.name
    · rw [if_pos hname, Option.some.inj ((if_pos hname).symm.trans hv)]
    · rw [if_neg hname]
      exact h.serverEncoding v ((if_neg hname).symm.trans hv)
  · intro v hv
    rw [parserSetParam_version]
    by_cases hname : "server_version" = p.name
    · rw [if_pos hname, Option.some.inj ((if_pos hname).symm.trans hv)]
    · rw [if_neg hname]
      exact h.serverVersionNum v ((if_neg hname).symm.trans hv)

/-- A parameter that is no setting changes none. -/
theorem parserSetParam_eq (h : isSetting name = false) : parserSetParam name value s = s := by
  simp only [isSetting, List.mem_cons, List.not_mem_nil, or_false, decide_eq_false_iff_not, not_or] at h
  unfold parserSetParam
  rw [if_neg h.1, if_neg h.2.1, if_neg h.2.2]

/-- A report that is not of a setting does not concern the settings. -/
theorem Agrees.report {b : Backend} (h : Agrees s b.reported) (hp : isSetting p.name = false) :
    Agrees s (b.report p).reported := by
  rw [← @parserSetParam_eq p.name p.value s hp]
  exact h.set

end

/-! ## One step -/

/-- The settings are those of the session, and the tables of the master those it has reported. -/
structure Child.Inv (master : Nat) (s : Child) : Prop where
  settings : ∀ c, s.current = some c → Agrees s.settings (s.pool c master).reported
  tables : ∀ c, Tells (s.pool c master).params (s.pool c master).reported

section

variable {master c node : Nat} {s t : Child} {p : Param}

theorem tells_fresh : Tells Backend.fresh.params Backend.fresh.reported where
  distinct := List.nodup_nil
  mem p := by simp [Backend.fresh]

theorem agrees_fresh {settings : Settings} : Agrees settings Backend.fresh.reported where
  standardConformingStrings _ h := nomatch h
  serverEncoding _ h := nomatch h
  serverVersionNum _ h := nomatch h

theorem inv_init : Child.init.Inv master where
  settings _ h := nomatch h
  tables _ := tells_fresh

/-- What `pool_add_param` does where there is room. -/
theorem addParam_eq {params : List Param}
    (h : poolAddParam p.name p.value (s.pool c node).params = some params) :
    s.addParam c node p = { s.update c node fun b => { b with params := params } with
      settings := parserSetParam p.name p.value s.settings } := by
  unfold Child.addParam
  rw [h]

/-- `pool_add_param` at another node. -/
theorem addParam_other (hnode : node ≠ master) (c' : Nat) :
    (s.addParam c node p).pool c' master = s.pool c' master := by
  unfold Child.addParam
  split
  · rfl
  · exact if_neg fun h => hnode h.2.symm

theorem addParam_current : (s.addParam c node p).current = s.current := by
  unfold Child.addParam
  split <;> rfl

theorem addParam_settings (hp : isSetting p.name = false) :
    (s.addParam c node p).settings = s.settings := by
  unfold Child.addParam
  split
  · rfl
  · exact parserSetParam_eq hp

/-- A report that is stored goes to the table and to the settings. -/
theorem inv_addParam (hinv : s.Inv master) (hcurrent : s.current = some c)
    (hroom : Room (s.pool c master) p.name) :
    ((s.update c master (·.report p)).addParam c master p).Inv master := by
  obtain ⟨params, hadd, htells⟩ := (hinv.tables c).addParam hroom
  have hpool : ((s.update c master (·.report p)).pool c master) = (s.pool c master).report p :=
    if_pos ⟨rfl, rfl⟩
  rw [addParam_eq (by rw [hpool]; exact hadd)]
  have hpool' : ∀ c', (((s.update c master (·.report p)).update c master
      fun b => { b with params := params }).pool c' master) =
        if c' = c then { (s.pool c master).report p with params := params } else s.pool c' master := by
    intro c'
    by_cases hc : c' = c
    · subst hc
      simp [Child.update]
    · simp [Child.update, hc]
  refine ⟨?_, ?_⟩
  · intro c' hc'
    obtain rfl : c = c' := Option.some.inj (hcurrent.symm.trans hc')
    refine (congrArg (fun b : Backend => Agrees _ b.reported) ((hpool' c).trans (if_pos rfl))).mpr ?_
    exact (hinv.settings c hcurrent).set
  · intro c'
    refine (congrArg (fun b : Backend => Tells b.params b.reported) (hpool' c')).mpr ?_
    split
    · exact htells
    · exact hinv.tables c'

/-- A report of another node does not reach the table of the master. -/
theorem inv_other (hinv : s.Inv master) (hnode : node ≠ master) :
    (s.update c node (·.report p)).Inv master := by
  have hpool : ∀ c', (s.update c node (·.report p)).pool c' master = s.pool c' master :=
    fun c' => if_neg fun h => hnode h.2.symm
  refine ⟨?_, ?_⟩
  · intro c' hc'
    rw [hpool]
    exact hinv.settings c' hc'
  · intro c'
    rw [hpool]
    exact hinv.tables c'

/-! ## Reuse -/

theorem report_report {b : Backend} : (b.report p).report p = b.report p := by
  unfold Backend.report
  refine congrArg (Backend.mk b.params) ?_
  funext name
  split
  · rfl
  · rename_i h
    exact if_neg h

/-- To report again what has been reported last changes nothing. -/
theorem report_reported {b : Backend} (h : b.reported p.name = some p.value) :
    (b.report p).reported = b.reported := by
  funext name
  unfold Backend.report
  by_cases hname : name = p.name
  · rw [hname, h]
    exact if_pos rfl
  · exact if_neg hname

/-- The replies that are thrown away. -/
theorem doCommand_eq (replies : List (Nat × Param)) (s : Child)
    (h : ∀ r ∈ replies, r.1 = master → r.2 = p) :
    (s.doCommand c replies).settings = s.settings ∧
      (∀ c', c' ≠ c → (s.doCommand c replies).pool c' master = s.pool c' master) ∧
      (s.doCommand c replies).pool c master =
        if ∃ r ∈ replies, r.1 = master then (s.pool c master).report p else s.pool c master := by
  induction replies generalizing s with
  | nil => exact ⟨rfl, fun _ _ => rfl, (if_neg fun ⟨_, hr, _⟩ => List.not_mem_nil hr).symm⟩
  | cons r rest ih =>
    obtain ⟨i, q⟩ := r
    obtain ⟨hsettings, hothers, hmaster⟩ := ih (s.update c i (·.report q))
      (fun r hr => h r (List.mem_cons_of_mem _ hr))
    refine ⟨hsettings, ?_, ?_⟩
    · intro c' hc'
      exact (hothers c' hc').trans (if_neg fun heq => hc' heq.1)
    · show ((s.update c i (·.report q)).doCommand c rest).pool c master = _
      rw [hmaster]
      by_cases hi : i = master
      · subst hi
        obtain rfl : q = p := h (i, q) List.mem_cons_self rfl
        have hpool : (s.update c i (·.report q)).pool c i = (s.pool c i).report q := if_pos ⟨rfl, rfl⟩
        rw [hpool, report_report, ite_self, if_pos ⟨(i, q), List.mem_cons_self, rfl⟩]
      · have hpool : (s.update c i (·.report q)).pool c master = s.pool c master :=
          if_neg fun heq => hi heq.2.symm
        have hrest : (∃ r ∈ rest, r.1 = master) ↔ ∃ r ∈ (i, q) :: rest, r.1 = master := by simp [hi]
        rw [hpool]
        exact if_congr hrest rfl rfl

/-- Where a connection is reused as it should be, its table is that of the reports again, and the settings
still are. -/
theorem reuse_kept {applicationName : Option (String × List (Nat × Param))} (hinv : s.Inv master)
    (hagrees : Agrees s.settings (s.pool c master).reported)
    (hname : NameKept master (s.pool c master) applicationName) :
    Agrees (s.setApplicationName master c applicationName).settings
        ((s.setApplicationName master c applicationName).pool c master).reported ∧
      ∀ c', Tells ((s.setApplicationName master c applicationName).pool c' master).params
        ((s.setApplicationName master c applicationName).pool c' master).reported := by
  cases applicationName with
  | none => exact ⟨hagrees, hinv.tables⟩
  | some app =>
    obtain ⟨name, replies⟩ := app
    obtain ⟨hroom, hreplies, hname⟩ := hname
    obtain ⟨hsettings, hothers, hmaster⟩ := doCommand_eq replies s hreplies
    obtain ⟨params, hadd, htells⟩ :=
      (hinv.tables c).addParam (p := ⟨"application_name", name⟩) hroom
    have hparams : ((s.doCommand c replies).pool c master).params = (s.pool c master).params := by
      rw [hmaster]
      split <;> rfl
    have hreported : ((s.doCommand c replies).pool c master).reported =
        ((s.pool c master).report ⟨"application_name", name⟩).reported := by
      rw [hmaster]
      split
      · rfl
      · rename_i hnone
        exact (report_reported (hname.resolve_right hnone)).symm
    have hset : s.setApplicationName master c (some (name, replies)) =
        { (s.doCommand c replies).update c master fun b => { b with params := params } with
          settings := parserSetParam "application_name" name (s.doCommand c replies).settings } :=
      addParam_eq (by rw [hparams]; exact hadd)
    have hpool : ∀ c', ((s.setApplicationName master c (some (name, replies))).pool c' master) =
        if c' = c then ⟨params, ((s.pool c master).report ⟨"application_name", name⟩).reported⟩
        else s.pool c' master := by
      intro c'
      rw [hset]
      by_cases hc : c' = c
      · subst hc
        simp [Child.update, hreported]
      · simp [Child.update, hc, hothers c' hc]
    refine ⟨?_, ?_⟩
    · rw [hpool, if_pos rfl, hset]
      show Agrees (parserSetParam "application_name" name (s.doCommand c replies).settings) _
      rw [hsettings]
      exact hagrees.set (p := ⟨"application_name", name⟩)
    · intro c'
      rw [hpool]
      split
      · exact htells
      · exact hinv.tables c'

theorem inv_step {e : Event} (hinv : s.Inv master) (hcareful : Careful master s e)
    (hstep : Child.step master s e = some t) : t.Inv master := by
  cases e with
  | connect c =>
    obtain rfl := Option.some.inj hstep
    refine ⟨?_, ?_⟩
    · intro c' hc'
      obtain rfl := Option.some.inj hc'
      simp only [if_true]
      exact agrees_fresh
    · intro c'
      by_cases hc : c' = c
      · simp only [if_pos hc]
        exact tells_fresh
      · simp only [if_neg hc]
        exact hinv.tables c'
  | reuse c applicationName =>
    obtain rfl := Option.some.inj hstep
    obtain ⟨hagrees, htables⟩ := reuse_kept hinv hcareful.1 hcareful.2
    refine ⟨?_, htables⟩
    intro c' hc'
    obtain rfl := Option.some.inj hc'
    exact hagrees
  | report node virtualMaster reader p =>
    unfold Child.step at hstep
    cases hcurrent : s.current with
    | none =>
      rw [hcurrent] at hstep
      cases hstep
    | some c =>
      have hcareful := hcareful c hcurrent
      simp only [hcurrent] at hstep
      by_cases hnode : node = master
      · rw [if_pos hnode] at hcareful
        rw [if_pos ⟨hcareful.1, hcareful.2.1⟩] at hstep
        obtain rfl := Option.some.inj hstep
        subst hnode
        exact inv_addParam hinv hcurrent hcareful.2.2
      · rw [if_neg hnode] at hcareful
        have hother := @inv_other master c node s p hinv hnode
        split at hstep
        · rename_i hstores
          obtain rfl := Option.some.inj hstep
          refine ⟨?_, ?_⟩
          · intro c' hc'
            rw [addParam_current] at hc'
            rw [addParam_other hnode, addParam_settings (hcareful hstores.1 hstores.2)]
            exact hother.settings c' hc'
          · intro c'
            rw [addParam_other hnode]
            exact hother.tables c'
        · obtain rfl := Option.some.inj hstep
          exact hother
  | leave =>
    obtain rfl := Option.some.inj hstep
    exact ⟨nofun, hinv.tables⟩

end

/-- The settings follow the server in every run whose steps are careful. -/
theorem follows_of_careful (master : Nat) : FollowsServer master (Careful master) := by
  intro s hrun
  have hinv : s.Inv master := hrun.invariant (fun _ _ _ hinv hok hstep => inv_step hinv hok hstep) inv_init
  refine ⟨hinv.settings, ?_⟩
  intro c applicationName t hcareful hstep
  obtain rfl := Option.some.inj hstep
  exact (reuse_kept hinv hcareful.1 hcareful.2).2 c

/-! ## Two connections -/

/-- A client on a new connection, whose server reports how it takes a backslash. -/
def session (c : Nat) (value : String) : List Event :=
  [.connect c, .report 0 0 .parameterStatus ⟨"standard_conforming_strings", value⟩, .leave]

theorem careful_reused :
    Holds (Child.step 0) (Careful 0) (session 0 "on" ++ [.reuse 0 none]) Child.init := by
  refine And.intro trivial (And.intro ?_ (And.intro trivial (And.intro ⟨?_, trivial⟩ trivial)))
  · intro c hc
    obtain rfl := Option.some.inj hc
    exact ⟨rfl, rfl, .inr (Nat.succ_pos 127)⟩
  · refine ⟨?_, ?_, ?_⟩
    · intro v hv
      obtain rfl : "on" = v := Option.some.inj hv
      rfl
    · intro v hv
      cases hv
    · intro v hv
      cases hv

/-- The connection of a client, reused by the next one, still is what the settings are of. -/
theorem agrees_reused : ∃ s,
    runAll (Child.step 0) (session 0 "on" ++ [.reuse 0 none]) Child.init = some s ∧
      ∀ c, s.current = some c → Agrees s.settings (s.pool c 0).reported :=
  ⟨_, rfl, (follows_of_careful 0 _ (Run.of_runAll rfl careful_reused)).1⟩

/-- After a client of another server, the settings are those of the other server. -/
theorem not_follows_twoServers : ¬ FollowsServer 0 Any := by
  intro hclaim
  have hrun : Run (Child.step 0) Any Child.init _ :=
    Run.of_runAll (show runAll (Child.step 0) (session 0 "off" ++ session 1 "on" ++ [.reuse 0 none])
      Child.init = some _ from rfl) (holds_any _ _)
  have hstrings := ((hclaim _ hrun).1 0 rfl).standardConformingStrings "off" rfl
  exact absurd hstrings (by decide)

end PgPool.Params
