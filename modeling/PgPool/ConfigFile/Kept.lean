import PgPool.ConfigFile.Load

/-!
# What a configuration keeps

Whatever files are loaded, a setting that has a value has one of its own kind, and the modes that exclude
each other are not both on.  A reload leaves alone what is only read at the start, and the backends that
are in use.
-/

namespace PgPool.ConfigFile

open Pcp.Codec (Bytes ascii)

/-- The values of a kind. -/
def Kind.Accepts : Kind → Value → Prop
  | .logical, .flag _ | .text, .text _ => True
  | .number least, .number n | .bigNumber least, .number n => least ≤ n
  | .oneOf values, .text s => s ∈ values.map ascii
  | _, _ => False

instance : (kind : Kind) → (v : Value) → Decidable (kind.Accepts v)
  | .logical, .flag _ | .text, .text _ => isTrue trivial
  | .number least, .number n | .bigNumber least, .number n => inferInstanceAs (Decidable (least ≤ n))
  | .oneOf values, .text s => inferInstanceAs (Decidable (s ∈ values.map ascii))
  | .logical, .number _ | .logical, .text _ | .text, .flag _ | .text, .number _ | .number _, .flag _
  | .number _, .text _ | .bigNumber _, .flag _ | .bigNumber _, .text _ | .oneOf _, .flag _
  | .oneOf _, .number _ => isFalse id

theorem accepts_readValue {token : Token} {yytext : Bytes} {kind : Kind} {v : Value}
    (h : readValue token yytext kind = some v) : kind.Accepts v := by
  cases kind with
  | logical =>
    obtain ⟨b, -, rfl⟩ := Option.map_eq_some_iff.1 h
    trivial
  | number least | bigNumber least =>
    simp only [readValue] at h
    split at h
    · cases h
    · rename_i hnot
      cases h
      exact Int.not_lt.1 fun hlt => hnot (Or.inr hlt)
  | text =>
    simp only [readValue] at h
    split at h
    · cases h
      trivial
    · cases h
  | oneOf values =>
    simp only [readValue] at h
    split at h
    · rename_i hmem
      cases h
      exact List.contains_iff_mem.1 (Bool.and_eq_true_iff.1 hmem).2
    · cases h

/-! ## What a key does -/

variable {W : Type} {env : Env W} {cfg cfg' : Config W}

/-- What a slot keeps that is in use. -/
structure SameServer (b b' : Backend W) : Prop where
  hostname : b'.hostname = b.hostname
  port : b'.port = b.port
  status : b'.status = b.status

/-- What becomes of the configuration with a key, and whether the loop goes on. -/
inductive Handled (env : Env W) (cfg : Config W) : Config W × Bool → Prop
  | same (ok : Bool) : Handled env cfg (cfg, ok)
  | setting (s : Setting) (mem : s ∈ settings) (context : env.context = .initConfig ∨ s.reload = true)
      (v : Value) (accepts : s.kind.Accepts v) : Handled env cfg (cfg.set s.name v, true)
  | inetDomainSocket (init : env.context = .initConfig) (s : Bytes) :
      Handled env cfg (cfg.set "listen_addresses" (.text s), true)
  | mode (init : env.context = .initConfig) (name other : String)
      (modes : name = "replication_mode" ∧ other = "master_slave_mode" ∨
        name = "master_slave_mode" ∧ other = "replication_mode") (v : Bool) :
      Handled env cfg (cfg.set name (.flag v), !((cfg.set name (.flag v)).isOn other && v))
  | list (cfg' : Config W) (values : cfg'.values = cfg.values) (backends : cfg'.backends = cfg.backends)
      (numBackends : cfg'.numBackends = cfg.numBackends) : Handled env cfg (cfg', true)
  | backend (slot : Nat) (b : Backend W)
      (kept : env.context = .reloadConfig → (cfg.backends slot).status ≠ .unused →
        SameServer (cfg.backends slot) b) : Handled env cfg (cfg.setBackend slot b, true)

theorem addRegexPatterns_frame (type : ListType) (l : List Bytes) (cfg : Config W) :
    (cfg.addRegexPatterns env type l).values = cfg.values ∧
      (cfg.addRegexPatterns env type l).backends = cfg.backends ∧
      (cfg.addRegexPatterns env type l).numBackends = cfg.numBackends := by
  unfold Config.addRegexPatterns
  induction l generalizing cfg with
  | nil => exact ⟨rfl, rfl, rfl⟩
  | cons s l ih =>
    rw [List.foldl_cons]
    obtain ⟨hvalues, hbackends, hnum⟩ := ih (cfg.addRegexPattern env type s)
    rw [hvalues, hbackends, hnum]
    unfold Config.addRegexPattern
    extract_lets front pattern
    split <;> exact ⟨rfl, rfl, rfl⟩

theorem handled_handleHostname (token : Token) (yytext : Bytes) (slot : Nat) :
    Handled env cfg (handleHostname env cfg token yytext slot, true) := by
  unfold handleHostname
  dsimp only
  split
  · rename_i hunused
    refine .backend slot _ fun hreload hused => ?_
    obtain hinit | hunused := hunused
    · rw [hreload] at hinit
      cases hinit
    · exact absurd hunused hused
  · exact .same true

theorem handled_handlePort (yytext : Bytes) (slot : Nat) :
    Handled env cfg (handlePort env cfg yytext slot, true) := by
  unfold handlePort
  dsimp only
  split
  · rename_i hinit
    refine .backend slot _ fun hreload _ => ?_
    rw [hreload] at hinit
    cases hinit
  · split
    · rename_i hunused
      exact .backend slot _ fun _ hused => absurd hunused hused
    · exact .same true

theorem handled_handleWeight (yytext : Bytes) (slot : Nat) :
    Handled env cfg (handleWeight env cfg yytext slot) := by
  unfold handleWeight
  split
  · exact .same false
  · exact .backend slot _ fun _ _ => ⟨rfl, rfl, rfl⟩

theorem handled_handleDataDirectory (token : Token) (yytext : Bytes) (slot : Nat) :
    Handled env cfg (handleDataDirectory env cfg token yytext slot, true) := by
  unfold handleDataDirectory
  dsimp only
  split
  · exact .backend slot _ fun _ _ => ⟨rfl, rfl, rfl⟩
  · exact .same true

theorem handled_handleFlag (token : Token) (yytext key : Bytes) :
    Handled env cfg (handleFlag cfg token yytext key) := by
  unfold handleFlag
  split
  · exact .same false
  · split
    · exact .same false
    · rename_i slot _
      exact .backend slot _ fun _ _ => ⟨rfl, rfl, rfl⟩

theorem handled_handleBackend (token : Token) (yytext key : Bytes) :
    Handled env cfg (handleBackend env cfg token yytext key) := by
  unfold handleBackend
  dsimp only
  split
  · split
    · exact .same false
    · exact handled_handleHostname token yytext _
  · split
    · split
      · exact .same false
      · exact handled_handlePort yytext _
    · split
      · split
        · exact .same false
        · exact handled_handleWeight yytext _
      · split
        · split
          · exact .same false
          · exact handled_handleDataDirectory token yytext _
        · split
          · exact handled_handleFlag token yytext key
          · exact .same true

theorem handled_handleList (token : Token) (yytext key : Bytes) :
    Handled env cfg (handleList env cfg token yytext key) := by
  unfold handleList
  dsimp only
  split
  · split
    · exact .list _ rfl rfl rfl
    · exact .same false
  · split
    · split
      · obtain ⟨hvalues, hbackends, hnum⟩ := @addRegexPatterns_frame W env .white _
          ({ cfg with whiteFunctionList := extractStringTokens (extractString yytext token) 44 } : Config W)
        exact .list _ hvalues hbackends hnum
      · exact .same false
    · split
      · split
        · obtain ⟨hvalues, hbackends, hnum⟩ := @addRegexPatterns_frame W env .black _
            ({ cfg with blackFunctionList := extractStringTokens (extractString yytext token) 44 } : Config W)
          exact .list _ hvalues hbackends hnum
        · exact .same false
      · split
        · exact handled_handleBackend token yytext key
        · exact .same true

theorem handled_handle (token : Token) (yytext key : Bytes) :
    Handled env cfg (handle env cfg token yytext key) := by
  unfold handle
  split
  · rename_i s hfind
    have hmem := List.mem_of_find?_eq_some hfind
    have hcontext := List.find?_some hfind
    simp only [Bool.and_eq_true, Bool.or_eq_true, beq_iff_eq] at hcontext
    split
    · exact .same false
    · rename_i v hread
      exact .setting s hmem hcontext.2 v (accepts_readValue hread)
  · split
    · rename_i hkey
      split
      · exact .same false
      · exact .inetDomainSocket hkey.2 _
    · split
      · rename_i hkey
        unfold handleMode
        split
        · exact .same false
        · rename_i v _
          exact .mode hkey.2 _ _ (Or.inl ⟨rfl, rfl⟩) v
      · split
        · rename_i hkey
          unfold handleMode
          split
          · exact .same false
          · rename_i v _
            exact .mode hkey.2 _ _ (Or.inr ⟨rfl, rfl⟩) v
        · exact handled_handleList token yytext key

/-! ## The loop -/

/-- What every key keeps, the loop keeps. -/
theorem load_invariant {I : Config W → Prop}
    (hstep : ∀ cfg r, I cfg → Handled env cfg r → I r.1) (toks : List (Token × Bytes)) (h : I cfg) :
    I (load env toks cfg).1 := by
  fun_induction load env toks cfg with
  | case1 => exact h
  | case2 cfg _ rest ih => exact ih h
  | case3 key cfg => exact hstep _ _ h (handled_handle ..)
  | case4 key cfg => exact hstep _ _ h (handled_handle ..)
  | case5 key cfg _ token yytext rest cfg' hhandle ih =>
    exact ih (by simpa [hhandle] using hstep _ _ h (handled_handle token yytext key))
  | case6 key cfg _ token yytext rest cfg' hhandle =>
    simpa [hhandle] using hstep _ _ h (handled_handle token yytext key)
  | case7 key cfg token yytext rest _ _ cfg' hhandle ih =>
    exact ih (by simpa [hhandle] using hstep _ _ h (handled_handle token yytext key))
  | case8 key cfg token yytext rest _ _ cfg' hhandle =>
    simpa [hhandle] using hstep _ _ h (handled_handle token yytext key)
  | case9 => exact h

/-- What every key keeps that does not end the loop, a loop keeps that comes to its end. -/
theorem load_success {I : Config W → Prop}
    (hstep : ∀ cfg cfg', I cfg → Handled env cfg (cfg', true) → I cfg') (toks : List (Token × Bytes))
    (h : I cfg) : ∀ cfg', load env toks cfg = (cfg', true) → I cfg' := by
  fun_induction load env toks cfg with
  | case1 =>
    rintro cfg' heq
    cases heq
    exact h
  | case2 cfg _ rest ih => exact ih h
  | case3 key cfg => exact fun cfg' heq => hstep _ _ h (heq ▸ handled_handle ..)
  | case4 key cfg => exact fun cfg' heq => hstep _ _ h (heq ▸ handled_handle ..)
  | case5 key cfg _ token yytext rest cfg' hhandle ih =>
    exact ih (hstep _ _ h (hhandle ▸ handled_handle token yytext key))
  | case6 => exact fun cfg' heq => by cases heq
  | case7 key cfg token yytext rest _ _ cfg' hhandle ih =>
    exact ih (hstep _ _ h (hhandle ▸ handled_handle token yytext key))
  | case8 => exact fun cfg' heq => by cases heq
  | case9 => exact fun cfg' heq => by cases heq

/-! ## Values -/

/-- Every setting that has a value has one of its kind. -/
def Fits (cfg : Config W) : Prop :=
  ∀ s ∈ settings, ∀ v, cfg.values s.name = some v → s.kind.Accepts v

theorem kind_eq_of_name {s s' : Setting} (hs : s ∈ settings) (hs' : s' ∈ settings)
    (hname : s.name = s'.name) : s.kind = s'.kind ∧ s.reload = s'.reload := by
  have hall : ∀ s ∈ settings, ∀ s' ∈ settings, s.name = s'.name → s.kind = s'.kind ∧ s.reload = s'.reload := by
    decide +kernel
  exact hall s hs s' hs' hname

theorem name_ne_mode {s : Setting} (hs : s ∈ settings) :
    s.name ≠ "replication_mode" ∧ s.name ≠ "master_slave_mode" := by
  have hall : ∀ s ∈ settings, s.name ≠ "replication_mode" ∧ s.name ≠ "master_slave_mode" := by
    decide +kernel
  exact hall s hs

theorem kind_listenAddresses {s : Setting} (hs : s ∈ settings) (hname : s.name = "listen_addresses") :
    s.kind = .text ∧ s.reload = false := by
  have hall : ∀ s ∈ settings, s.name = "listen_addresses" → s.kind = .text ∧ s.reload = false := by
    decide +kernel
  exact hall s hs hname

theorem values_set (name : String) (v : Value) (name' : String) :
    (cfg.set name v).values name' = if name' = name then some v else cfg.values name' := by
  simp [Config.set, Function.update_apply]

theorem Fits.handled {r : Config W × Bool} (h : Fits cfg) (hr : Handled env cfg r) : Fits r.1 := by
  intro s hs v hv
  cases hr with
  | same ok => exact h s hs v hv
  | setting s' hs' _ v' haccepts =>
    rw [values_set] at hv
    split at hv
    · rename_i hname
      cases hv
      rw [(kind_eq_of_name hs hs' hname).1]
      exact haccepts
    · exact h s hs v hv
  | inetDomainSocket _ text =>
    rw [values_set] at hv
    split at hv
    · rename_i hname
      cases hv
      rw [(kind_listenAddresses hs hname).1]
      trivial
    · exact h s hs v hv
  | mode _ name other modes b =>
    rw [values_set] at hv
    split at hv
    · rename_i hname
      obtain ⟨rfl, -⟩ | ⟨rfl, -⟩ := modes
      · exact absurd hname (name_ne_mode hs).1
      · exact absurd hname (name_ne_mode hs).2
    · exact h s hs v hv
  | list cfg' hvalues _ _ =>
    rw [hvalues] at hv
    exact h s hs v hv
  | backend slot b _ => exact h s hs v hv

theorem Fits.poolGetConfig (h : Fits cfg) (file : Option Bytes) :
    Fits (ConfigFile.poolGetConfig env file cfg).1 := by
  unfold ConfigFile.poolGetConfig
  cases file with
  | none => exact h
  | some text =>
    have hload : Fits (load env (tokens text) cfg).1 :=
      load_invariant (fun _ _ h hr => h.handled hr) (tokens text) h
    obtain ⟨cfg', ok, heq⟩ : ∃ cfg' ok, load env (tokens text) cfg = (cfg', ok) := ⟨_, _, rfl⟩
    rw [heq] at hload
    simp only [heq]
    cases ok with
    | true => exact hload
    | false => exact hload

/-! ## Modes -/

/-- The modes that exclude each other. -/
def Exclusive (cfg : Config W) : Prop :=
  ¬ (cfg.isOn "replication_mode" = true ∧ cfg.isOn "master_slave_mode" = true)

theorem isOn_set_of_ne {name name' : String} {v : Value} (h : name' ≠ name) :
    (cfg.set name v).isOn name' = cfg.isOn name' := by
  simp [Config.isOn, values_set, h]

theorem isOn_set_self {name : String} {b : Bool} : (cfg.set name (.flag b)).isOn name = b := by
  cases b <;> simp [Config.isOn, values_set]

theorem Exclusive.handled (h : Exclusive cfg) (hr : Handled env cfg (cfg', true)) : Exclusive cfg' := by
  generalize hok : (cfg', true) = r at hr
  cases hr with
  | same ok =>
    cases hok
    exact h
  | setting s hs _ v _ =>
    cases hok
    obtain ⟨hne, hne'⟩ := name_ne_mode hs
    rw [Exclusive, isOn_set_of_ne (Ne.symm hne), isOn_set_of_ne (Ne.symm hne')]
    exact h
  | inetDomainSocket _ s =>
    cases hok
    rw [Exclusive, isOn_set_of_ne (by decide), isOn_set_of_ne (by decide)]
    exact h
  | mode _ name other modes v =>
    simp only [Prod.mk.injEq, Bool.true_eq, Bool.not_eq_true', Bool.and_eq_false_imp] at hok
    obtain ⟨rfl, hother⟩ := hok
    obtain ⟨rfl, rfl⟩ | ⟨rfl, rfl⟩ := modes
    · rintro ⟨hon, hon'⟩
      rw [isOn_set_self] at hon
      rw [hother hon'] at hon
      cases hon
    · rintro ⟨hon, hon'⟩
      rw [isOn_set_self] at hon'
      rw [hother hon] at hon'
      cases hon'
  | list _ hvalues _ _ =>
    cases hok
    simpa only [Exclusive, Config.isOn, hvalues] using h
  | backend slot b _ =>
    cases hok
    exact h

/-- Every default is one of its kind. -/
theorem fits_poolInitConfig (zero : W) (localhostname : Bytes) :
    Fits (poolInitConfig zero localhostname) := by
  have hall : ∀ p ∈ defaults [], ∀ s ∈ settings, s.name = p.1 → s.kind.Accepts p.2 := by decide +kernel
  have hhost : ∀ p ∈ defaults localhostname,
      p ∈ defaults [] ∨ p = ("pgpool2_hostname", .text localhostname) := by
    intro p hp
    obtain ⟨l, hfront⟩ : ∃ l, ∀ host, defaults host = l ++ [("pgpool2_hostname", .text host)] :=
      ⟨(defaults []).dropLast, fun _ => rfl⟩
    rw [hfront, List.mem_append, List.mem_singleton] at hp
    obtain hp | hp := hp
    · left
      rw [hfront]
      exact List.mem_append_left _ hp
    · exact Or.inr hp
  have hkind : ∀ s ∈ settings, s.name = "pgpool2_hostname" → s.kind = .text := by decide +kernel
  intro s hs v hv
  have hmem : (s.name, v) ∈ defaults localhostname := by
    have hlookup : (defaults localhostname).lookup s.name = some v := hv
    obtain ⟨l₁, l₂, hsplit, -⟩ := List.lookup_eq_some_iff.1 hlookup
    rw [hsplit]
    exact List.mem_append_right _ List.mem_cons_self
  obtain hmem | heq := hhost _ hmem
  · exact hall _ hmem s hs rfl
  · simp only [Prod.mk.injEq] at heq
    rw [hkind s hs heq.1, heq.2]
    trivial

theorem exclusive_poolInitConfig (zero : W) (localhostname : Bytes) :
    Exclusive (poolInitConfig zero localhostname) := by
  rintro ⟨hon, -⟩
  exact absurd hon (by simp [Config.isOn, poolInitConfig, defaults, List.lookup_cons])

/-! ## Reloads -/

/-- A slot that is in use. -/
def InUse (b : Backend W) : Prop := b.status ≠ .unused ∧ b.port ≠ 0 ∧ b.hostname ≠ []

/-- The settings that are only read at the start, and the slots, in the loop of a reload. -/
structure Keeps (cfg cfg' : Config W) : Prop where
  settings : ∀ s ∈ settings, s.reload = false → cfg'.values s.name = cfg.values s.name
  replication : cfg'.values "replication_mode" = cfg.values "replication_mode"
  masterSlave : cfg'.values "master_slave_mode" = cfg.values "master_slave_mode"
  servers : ∀ i, (cfg.backends i).status ≠ .unused → SameServer (cfg.backends i) (cfg'.backends i)
  numBackends : cfg'.numBackends = cfg.numBackends

theorem Keeps.refl (cfg : Config W) : Keeps cfg cfg :=
  ⟨fun _ _ _ => rfl, rfl, rfl, fun _ _ => ⟨rfl, rfl, rfl⟩, rfl⟩

theorem Keeps.handled {start : Config W} {r : Config W × Bool} (h : Keeps start cfg)
    (hreload : env.context = .reloadConfig) (hr : Handled env cfg r) : Keeps start r.1 := by
  cases hr with
  | same ok => exact h
  | setting s hs hcontext v _ =>
    have hagain : s.reload = true := by
      obtain hinit | hagain := hcontext
      · rw [hreload] at hinit
        cases hinit
      · exact hagain
    refine ⟨fun s' hs' honce => ?_, ?_, ?_, h.servers, h.numBackends⟩
    · have hne : s'.name ≠ s.name := by
        intro hname
        rw [(kind_eq_of_name hs' hs hname).2, hagain] at honce
        cases honce
      rw [values_set, if_neg hne]
      exact h.settings s' hs' honce
    · rw [values_set, if_neg (Ne.symm (name_ne_mode hs).1)]
      exact h.replication
    · rw [values_set, if_neg (Ne.symm (name_ne_mode hs).2)]
      exact h.masterSlave
  | inetDomainSocket hinit _ =>
    rw [hreload] at hinit
    cases hinit
  | mode hinit _ _ _ _ =>
    rw [hreload] at hinit
    cases hinit
  | list cfg' hvalues hbackends hnum =>
    exact ⟨by rw [hvalues]; exact h.settings, by rw [hvalues]; exact h.replication,
      by rw [hvalues]; exact h.masterSlave, by rw [hbackends]; exact h.servers,
      hnum.trans h.numBackends⟩
  | backend slot b hkept =>
    refine ⟨h.settings, h.replication, h.masterSlave, fun i hused => ?_, h.numBackends⟩
    have hold := h.servers i hused
    by_cases hi : i = slot
    · subst hi
      have hnew := hkept hreload (by rwa [hold.status])
      have hself : (cfg.setBackend i b).backends i = b := Function.update_self ..
      rw [hself]
      exact ⟨hnew.hostname.trans hold.hostname, hnew.port.trans hold.port, hnew.status.trans hold.status⟩
    · have hother : (cfg.setBackend slot b).backends i = cfg.backends i := Function.update_of_ne hi ..
      rw [hother]
      exact hold

theorem lt_countBackends {backends : Nat → Backend W} {i n : Nat} (hi : i < n)
    (hport : (backends i).port ≠ 0) : i < countBackends backends n := by
  induction n with
  | zero => omega
  | succ n ih =>
    unfold countBackends
    split
    · exact hi
    · rename_i hnot
      refine ih ?_
      by_contra hge
      obtain rfl : i = n := by omega
      exact hnot hport

theorem finishBackend_inUse {b : Backend W} (h : InUse b) : finishBackend cfg b = b := by
  rw [finishBackend, if_neg h.2.1, if_neg h.2.2]

/-- What a reload keeps. -/
structure ReloadKeeps (cfg cfg' : Config W) : Prop where
  settings : ∀ s ∈ settings, s.reload = false → cfg'.values s.name = cfg.values s.name
  replication : cfg'.values "replication_mode" = cfg.values "replication_mode"
  masterSlave : cfg'.values "master_slave_mode" = cfg.values "master_slave_mode"
  servers : ∀ i < maxNumBackends, InUse (cfg.backends i) → SameServer (cfg.backends i) (cfg'.backends i)
  counted : ∀ i < maxNumBackends, InUse (cfg.backends i) → i < cfg.numBackends → i < cfg'.numBackends

/-- **Main result.** Whatever the file says, and whether or not it is refused, a reload changes no setting
that is only read at the start, and no slot in use gets another server or status or is no longer
counted. -/
theorem reload_keeps (env : Env W) (file : Option Bytes) (cfg : Config W) :
    ReloadKeeps cfg (poolGetConfig { env with context := .reloadConfig } file cfg).1 := by
  unfold poolGetConfig
  cases file with
  | none => exact ⟨fun _ _ _ => rfl, rfl, rfl, fun _ _ _ => ⟨rfl, rfl, rfl⟩, fun _ _ _ h => h⟩
  | some text =>
    have h : Keeps cfg (load { env with context := .reloadConfig } (tokens text) cfg).1 :=
      load_invariant (fun _ _ h hr => h.handled rfl hr) (tokens text) (Keeps.refl cfg)
    obtain ⟨cfg', ok, heq⟩ : ∃ cfg' ok,
        load { env with context := .reloadConfig } (tokens text) cfg = (cfg', ok) := ⟨_, _, rfl⟩
    rw [heq] at h
    simp only [heq]
    have hservers : ∀ i < maxNumBackends, InUse (cfg.backends i) →
        SameServer (cfg.backends i) (cfg'.backends i) := fun i _ hused => h.servers i hused.1
    cases ok with
    | false =>
      exact ⟨h.settings, h.replication, h.masterSlave, hservers, fun i _ _ hlt => h.numBackends ▸ hlt⟩
    | true =>
      refine ⟨h.settings, h.replication, h.masterSlave, fun i hi hused => ?_, fun i hi hused _ => ?_⟩
      · have hsame := hservers i hi hused
        have huse : InUse (cfg'.backends i) := by
          rw [InUse, hsame.status, hsame.port, hsame.hostname]
          exact hused
        have hfinish : (finish cfg').backends i = cfg'.backends i := finishBackend_inUse huse
        rw [hfinish]
        exact hsame
      · refine lt_countBackends hi ?_
        rw [(hservers i hi hused).port]
        exact hused.2.1

/-! ## All loads -/

/-- The reloads of a process, one after the other. -/
def reloads (cfg : Config W) (l : List (Env W × Option Bytes)) : Config W :=
  l.foldl (fun cfg r => (poolGetConfig { r.1 with context := .reloadConfig } r.2 cfg).1) cfg

/-- What holds of a configuration after any loads. -/
structure Sane (start cfg : Config W) : Prop where
  fits : Fits cfg
  exclusive : Exclusive cfg
  settings : ∀ s ∈ settings, s.reload = false → cfg.values s.name = start.values s.name

theorem Exclusive.poolGetConfig {file : Option Bytes} (h : Exclusive cfg)
    (hzero : (poolGetConfig env file cfg).2 = 0) : Exclusive (poolGetConfig env file cfg).1 := by
  unfold ConfigFile.poolGetConfig at hzero ⊢
  cases file with
  | none => exact h
  | some text =>
    obtain ⟨cfg', ok, heq⟩ : ∃ cfg' ok, load env (tokens text) cfg = (cfg', ok) := ⟨_, _, rfl⟩
    simp only [heq] at hzero ⊢
    cases ok with
    | false => cases hzero
    | true =>
      have hload : Exclusive cfg' :=
        load_success (I := Exclusive) (fun _ _ h hr => h.handled hr) (tokens text) h cfg' heq
      exact hload

theorem sane_reloads (start : Config W) (l : List (Env W × Option Bytes)) :
    ∀ {cfg : Config W}, Sane start cfg → Sane start (reloads cfg l) := by
  induction l with
  | nil => exact fun h => h
  | cons r l ih =>
    intro cfg h
    rw [reloads, List.foldl_cons]
    have hkeeps := reload_keeps r.1 r.2 cfg
    refine ih ⟨h.fits.poolGetConfig r.2, ?_, fun s hs honce =>
      (hkeeps.settings s hs honce).trans (h.settings s hs honce)⟩
    rw [Exclusive, Config.isOn, Config.isOn, hkeeps.replication, hkeeps.masterSlave]
    exact h.exclusive

/-- **Main result.** After a start with a file that is not refused, and any reloads whatever they read:
every setting that has a value has one of its kind, replication mode and master slave mode are not both
on, and what is only read at the start is as it was read there. -/
theorem sane_loads (env : Env W) (zero : W) (localhostname : Bytes) (file : Option Bytes)
    (hstart : (poolGetConfig env file (poolInitConfig zero localhostname)).2 = 0)
    (l : List (Env W × Option Bytes)) :
    Sane (poolGetConfig env file (poolInitConfig zero localhostname)).1
      (reloads (poolGetConfig env file (poolInitConfig zero localhostname)).1 l) :=
  sane_reloads _ l ⟨(fits_poolInitConfig zero localhostname).poolGetConfig file,
    (exclusive_poolInitConfig zero localhostname).poolGetConfig hstart, fun _ _ _ => rfl⟩

/-- The parent at its start, with whole numbers for weights. -/
def plainEnv : Env Int where
  context := .initConfig
  isParent := true
  atof := Pcp.Codec.strtol
  negative w := decide (w < 0)
  regcomp _ := true
  systemDbInfo := false
  queryCacheTable := false

def replicationFile : Bytes := ascii "replication_mode = on\nbackend_port0 = 5432\n"

/-- The reload asks for the other mode and for another port. -/
theorem sane_replication :
    Sane (poolGetConfig plainEnv (some replicationFile) (poolInitConfig 0 [])).1
      (reloads (poolGetConfig plainEnv (some replicationFile) (poolInitConfig 0 [])).1
        [(plainEnv, some (ascii "master_slave_mode = on\nport = 9998\n"))]) :=
  sane_loads plainEnv 0 [] (some replicationFile) (by decide +kernel) _

end PgPool.ConfigFile
