import PgPool.Lib.Reader
import PgPool.Stream.Peek

/-!
# The startup packet

`read_startup_packet`.  The bytes behind the packet belong to other memory: to read one of them is an
outcome of its own.
-/

namespace PgPool.Startup

/-- `MAX_STARTUP_PACKET_LENGTH`. -/
def maxStartupPacketLength : Int := 10000

/-- `SM_DATABASE`. -/
def smDatabase : Nat := 64

/-- `SM_USER`. -/
def smUser : Nat := 32

/-- The parameters that are looked for. -/
inductive Key where
  | user
  | database
  | applicationName
  deriving DecidableEq, Repr

def Key.name : Key → List UInt8
  | .user => [117, 115, 101, 114]
  | .database => [100, 97, 116, 97, 98, 97, 115, 101]
  | .applicationName => [97, 112, 112, 108, 105, 99, 97, 116, 105, 111, 110, 95, 110, 97, 109, 101]

/-- `StartupPacket`. -/
structure StartupPacket where
  startupPacket : List UInt8
  major : Nat
  minor : Nat
  database : Option (List UInt8)
  user : Option (List UInt8)
  applicationName : Option (List UInt8)
  deriving DecidableEq, Repr

namespace StartupPacket

variable (sp : StartupPacket)

def get : Key → Option (List UInt8)
  | .user => sp.user
  | .database => sp.database
  | .applicationName => sp.applicationName

def set (value : List UInt8) : Key → StartupPacket
  | .user => { sp with user := some value }
  | .database => { sp with database := some value }
  | .applicationName => { sp with applicationName := some value }

theorem get_set (value : List UInt8) (key key' : Key) :
    (sp.set value key).get key' = if key' = key then some value else sp.get key' := by
  cases key <;> cases key' <;> rfl

end StartupPacket

/-- NULL is returned, or a packet; or memory is read that is no part of the packet. -/
inductive Outcome where
  | refused
  | accepted (sp : StartupPacket)
  | outside
  deriving DecidableEq, Repr

/-- The parameter that a name is compared equal with. -/
def keyOf (name : List UInt8) : Option Key := [Key.user, .database, .applicationName].find? (·.name = name)

/-- `while (*p)`: `rest` are the bytes from `p` on.  A name that is not looked for is passed over, its value
is not. -/
def readParameters (sp : StartupPacket) : Nat → List UInt8 → Outcome
  | 0, _ => .outside
  | fuel + 1, rest =>
    match Reader.upTo 0 rest with
    | none => .outside
    | some ([], _) => .accepted sp
    | some (name, rest) =>
      match keyOf name with
      | none => readParameters sp fuel rest
      | some key =>
        match Reader.upTo 0 rest with
        | none => .outside
        | some (value, rest) => readParameters (sp.set value key) fuel rest

/-- `strncpy`. -/
def strncpy : Nat → List UInt8 → Option (List UInt8)
  | 0, _ => some []
  | _ + 1, [] => none
  | n + 1, b :: rest => if b = 0 then some [] else (strncpy n rest).map (b :: ·)

/-- The fields of a packet of V2: `rest` starts with `sp2->database`. -/
def copyFields (sp : StartupPacket) (rest : List UInt8) : Outcome :=
  match strncpy smDatabase rest, strncpy smUser (rest.drop smDatabase) with
  | some database, some user => .accepted { sp with database := some database, user := some user }
  | _, _ => .outside

/-- The major protocol version. -/
def majorOf (bytes : List UInt8) : Nat := ntohl (bytes.take 4) / 2 ^ 16

/-- The packet, once it is there. -/
def parseStartupPacket (bytes : List UInt8) : Outcome :=
  if bytes.length < 4 then .outside
  else
    let sp : StartupPacket := ⟨bytes, majorOf bytes, ntohl (bytes.take 4) % 2 ^ 16, none, none, none⟩
    match sp.major with
    | 2 => copyFields sp (bytes.drop 4)
    | 3 => readParameters sp bytes.length (bytes.drop 4)
    | 1234 => .accepted { sp with database := some [], user := some [] }
    | _ => .refused

/-- The length word, less its own size: `int` is the result of an unsigned subtraction. -/
def announced (stream : List UInt8) : Int := (BitVec.ofNat 32 (ntohl (stream.take 4)) - 4).toInt

/-- The packet that is read.  `calloc` has no memory of negative size, and `pool_read` fails where the
client sends less. -/
def received (stream : List UInt8) : Option (List UInt8) :=
  if stream.length < 4 then none
  else
    let len := announced stream
    if maxStartupPacketLength ≤ len then none
    else if len < 0 then none
    else if (stream.drop 4).length < len.toNat then none
    else some ((stream.drop 4).take len.toNat)

/-- `read_startup_packet`, of all that the client sends. -/
def readStartupPacket (stream : List UInt8) : Outcome :=
  match received stream with
  | none => .refused
  | some bytes => parseStartupPacket bytes

/-! ## What it should do -/

/-- The parameters that the bytes define: names with their values, up to an empty name. -/
inductive Parameters : List UInt8 → List (List UInt8 × List UInt8) → Prop
  | done (rest : List UInt8) : Parameters (0 :: rest) []
  | pair {name value rest : List UInt8} {pairs : List (List UInt8 × List UInt8)} (hne : name ≠ [])
      (hname : 0 ∉ name) (hvalue : 0 ∉ value) (hrest : Parameters rest pairs) :
      Parameters (name ++ 0 :: (value ++ 0 :: rest)) ((name, value) :: pairs)

/-- Nothing outside of the packet is read, and of V3 the last value of each parameter is taken. -/
def Right (stream : List UInt8) : Prop :=
  readStartupPacket stream ≠ .outside ∧
    ∀ sp, readStartupPacket stream = .accepted sp → sp.major = 3 →
      ∀ pairs, Parameters (sp.startupPacket.drop 4) pairs →
        ∀ key, sp.get key = pairs.reverse.lookup key.name

/-! ## Which strings are taken for names -/

/-- The strings that end with a zero byte. -/
def strings : List UInt8 → List (List UInt8)
  | [] => []
  | b :: rest =>
    if b = 0 then [] :: strings rest
    else match strings rest with
      | [] => []
      | s :: ss => (b :: s) :: ss

/-- How many names that are looked for stand directly in front of a place. -/
def namesBefore (l : List (List UInt8)) (i : Nat) : Nat :=
  ((l.take i).reverse.takeWhile fun s => (keyOf s).isSome).length

/-- A string is taken for a name, and not for the value of the one in front, if these are even in number. -/
def NamePlace (l : List (List UInt8)) (i : Nat) : Prop := namesBefore l i % 2 = 0

instance (l : List (List UInt8)) (i : Nat) : Decidable (NamePlace l i) := Nat.decEq _ _

/-- The first empty string at such a place. -/
structure Stops (l : List (List UInt8)) (stop : Nat) : Prop where
  place : NamePlace l stop
  empty : l[stop]? = some []
  first : ∀ i, i < stop → NamePlace l i → l[i]? ≠ some []

/-- What follows the last of such places that has the name. -/
def lastValue (l : List (List UInt8)) (key : Key) : Nat → Option (List UInt8)
  | 0 => none
  | i + 1 => if NamePlace l i ∧ l[i]? = some key.name then l[i + 1]? else lastValue l key i

/-- A string that ends in the first `n` bytes, or so many bytes. -/
def FieldEnds (n : Nat) (src : List UInt8) : Prop := 0 ∈ src.take n ∨ n ≤ src.length

/-- The packets that are read rightly: of V2 both fields end inside of the packet; of V3 an empty string is
taken for a name, and what follows the last of each name in front of it is what the parameters give it. -/
structure Clear (bytes : List UInt8) : Prop where
  version : 4 ≤ bytes.length
  v2 : majorOf bytes = 2 →
    FieldEnds smDatabase (bytes.drop 4) ∧ FieldEnds smUser ((bytes.drop 4).drop smDatabase)
  v3 : majorOf bytes = 3 → ∃ stop, Stops (strings (bytes.drop 4)) stop ∧
    ∀ pairs, Parameters (bytes.drop 4) pairs →
      ∀ key, lastValue (strings (bytes.drop 4)) key stop = pairs.reverse.lookup key.name

/-! ## Strings -/

/-- The same loop, string by string. -/
def readStrings (sp : StartupPacket) : List (List UInt8) → Outcome
  | [] => .outside
  | [] :: _ => .accepted sp
  | (b :: name) :: rest =>
    match keyOf (b :: name), rest with
    | none, rest => readStrings sp rest
    | some _, [] => .outside
    | some key, value :: rest => readStrings (sp.set value key) rest

theorem upTo_cases (rest : List UInt8) :
    (Reader.upTo 0 rest = none ∧ strings rest = []) ∨
      ∃ s rest', Reader.upTo 0 rest = some (s, rest') ∧ strings rest = s :: strings rest' ∧
        rest'.length < rest.length := by
  induction rest with
  | nil => exact .inl ⟨rfl, rfl⟩
  | cons b rest ih =>
    rw [Reader.upTo, strings]
    by_cases hb : b = 0
    · rw [if_pos hb, if_pos hb]
      exact .inr ⟨[], rest, rfl, rfl, Nat.lt_succ_self _⟩
    · rw [if_neg hb, if_neg hb]
      obtain ⟨hnone, hempty⟩ | ⟨s, rest', hsome, hstrings, hlt⟩ := ih
      · rw [hnone, hempty]
        exact .inl ⟨rfl, rfl⟩
      · rw [hsome, hstrings]
        exact .inr ⟨b :: s, rest', rfl, rfl, Nat.lt_succ_of_lt hlt⟩

theorem readParameters_eq {sp : StartupPacket} {fuel : Nat} {rest : List UInt8} (h : rest.length ≤ fuel) :
    readParameters sp fuel rest = readStrings sp (strings rest) := by
  induction fuel generalizing sp rest with
  | zero =>
    rw [List.eq_nil_of_length_eq_zero (Nat.le_zero.mp h)]
    rfl
  | succ fuel ih =>
    unfold readParameters
    obtain ⟨hnone, hempty⟩ | ⟨name, rest', hsome, hstrings, hlt⟩ := upTo_cases rest
    · rw [hnone, hempty]
      rfl
    · rw [hsome, hstrings]
      cases name with
      | nil => rfl
      | cons b name =>
        unfold readStrings
        cases hkey : keyOf (b :: name) with
        | none => simpa [hkey] using ih (by omega)
        | some key =>
          obtain ⟨hnone, hempty⟩ | ⟨value, rest'', hsome, hstrings, hlt'⟩ := upTo_cases rest'
          · simp [hkey, hnone, hempty]
          · simpa [hkey, hsome, hstrings] using ih (by omega)

theorem keyOf_eq_some {name : List UInt8} {key : Key} : keyOf name = some key ↔ name = key.name := by
  constructor
  · intro h
    unfold keyOf at h
    have hfound := List.find?_some h
    exact (of_decide_eq_true hfound).symm
  · rintro rfl
    cases key <;> rfl

section

variable {l : List (List UInt8)} {i : Nat} {s : List UInt8} {key : Key}

theorem namesBefore_succ (h : l[i]? = some s) :
    namesBefore l (i + 1) = if (keyOf s).isSome then namesBefore l i + 1 else 0 := by
  unfold namesBefore
  rw [List.take_add_one, h, Option.toList_some, List.reverse_append, List.reverse_singleton,
    List.singleton_append, List.takeWhile_cons]
  split <;> rfl

/-- Behind a string that is not looked for there is a place for a name. -/
theorem namePlace_other (h : l[i]? = some s) (hs : keyOf s = none) : NamePlace l (i + 1) := by
  unfold NamePlace
  rw [namesBefore_succ h, hs]
  rfl

theorem not_namePlace_value (h : l[i]? = some s) (hplace : NamePlace l i) (hs : keyOf s = some key) :
    ¬ NamePlace l (i + 1) := by
  unfold NamePlace at hplace ⊢
  rw [namesBefore_succ h, hs, Option.isSome_some, if_pos rfl]
  omega

/-- Behind a value there is one, whatever the value. -/
theorem namePlace_value {value : List UInt8} (h : l[i]? = some s) (hplace : NamePlace l i)
    (hs : keyOf s = some key) (hvalue : l[i + 1]? = some value) : NamePlace l (i + 2) := by
  have hodd := not_namePlace_value h hplace hs
  unfold NamePlace at hodd ⊢
  rw [namesBefore_succ hvalue]
  split
  · omega
  · rfl

/-- How far the loop has come: `i` is the place of the next name. -/
structure At (l : List (List UInt8)) (i : Nat) (sp : StartupPacket) : Prop where
  place : NamePlace l i
  values : ∀ key, sp.get key = lastValue l key i
  first : ∀ j, j < i → NamePlace l j → l[j]? ≠ some []

variable {sp : StartupPacket}

theorem At.other (h : At l i sp) (hs : l[i]? = some s) (hne : s ≠ []) (hkey : keyOf s = none) :
    At l (i + 1) sp where
  place := namePlace_other hs hkey
  values key := by
    have hname : ¬ (NamePlace l i ∧ l[i]? = some key.name) := by
      rintro ⟨-, hname⟩
      rw [hs, Option.some.injEq] at hname
      rw [keyOf_eq_some.mpr hname] at hkey
      cases hkey
    rw [lastValue, if_neg hname]
    exact h.values key
  first j hj hplace := by
    rcases Nat.lt_succ_iff_lt_or_eq.mp hj with hj | rfl
    · exact h.first j hj hplace
    · rw [hs]
      simpa using hne

theorem At.value {value : List UInt8} (h : At l i sp) (hs : l[i]? = some s) (hne : s ≠ [])
    (hkey : keyOf s = some key) (hvalue : l[i + 1]? = some value) : At l (i + 2) (sp.set value key) where
  place := namePlace_value hs h.place hkey hvalue
  values key' := by
    have hskip : ¬ (NamePlace l (i + 1) ∧ l[i + 1]? = some key'.name) :=
      fun hname => not_namePlace_value hs h.place hkey hname.1
    rw [lastValue, if_neg hskip, lastValue, StartupPacket.get_set, hs, hvalue]
    have hname := keyOf_eq_some.mp hkey
    by_cases heq : key' = key
    · rw [if_pos heq, if_pos ⟨h.place, by rw [heq, hname]⟩]
    · have hother : ¬ (NamePlace l i ∧ some s = some key'.name) := by
        rintro ⟨-, hsame⟩
        have hkey' := keyOf_eq_some.mpr (Option.some.inj hsame)
        rw [hkey, Option.some.injEq] at hkey'
        exact heq hkey'.symm
      rw [if_neg heq, if_neg hother]
      exact h.values key'
  first j hj hplace := by
    rcases Nat.lt_succ_iff_lt_or_eq.mp hj with hj | rfl
    · rcases Nat.lt_succ_iff_lt_or_eq.mp hj with hj | rfl
      · exact h.first j hj hplace
      · rw [hs]
        simpa using hne
    · exact absurd hplace (not_namePlace_value hs h.place hkey)

theorem At.not_stops (h : At l i sp) (hout : l.length ≤ i) : ¬ ∃ stop, Stops l stop := by
  rintro ⟨stop, hstop⟩
  have hlt : stop < l.length := (List.getElem?_eq_some_iff.mp hstop.empty).1
  exact h.first stop (by omega) hstop.place hstop.empty

theorem Stops.unique {stop stop' : Nat} (h : Stops l stop) (h' : Stops l stop') : stop = stop' := by
  rcases Nat.lt_trichotomy stop stop' with hlt | heq | hlt
  · exact absurd h.empty (h'.first stop hlt h.place)
  · exact heq
  · exact absurd h'.empty (h.first stop' hlt h'.place)

/-- What the loop returns. -/
def Ends (l : List (List UInt8)) (sp : StartupPacket) (outcome : Outcome) : Prop :=
  (outcome = .outside ∧ ¬ ∃ stop, Stops l stop) ∨
    ∃ sp' stop, outcome = .accepted sp' ∧ Stops l stop ∧ (∀ key, sp'.get key = lastValue l key stop) ∧
      sp'.startupPacket = sp.startupPacket ∧ sp'.major = sp.major

theorem ends_set {value : List UInt8} {outcome : Outcome} (h : Ends l (sp.set value key) outcome) :
    Ends l sp outcome := by
  obtain h | ⟨sp', stop, heq, hstop, hvalues, hbytes, hmajor⟩ := h
  · exact .inl h
  · refine .inr ⟨sp', stop, heq, hstop, hvalues, ?_, ?_⟩
    · rw [hbytes]
      cases key <;> rfl
    · rw [hmajor]
      cases key <;> rfl

theorem getElem?_of_drop {rest : List (List UInt8)} (h : l.drop i = s :: rest) :
    l[i]? = some s ∧ l.drop (i + 1) = rest := by
  refine ⟨?_, ?_⟩
  · rw [← Nat.add_zero i, ← List.getElem?_drop, h]
    rfl
  · rw [← List.drop_drop, h]
    rfl

theorem ends_readStrings {rest : List (List UInt8)} (h : At l i sp) (hrest : l.drop i = rest) :
    Ends l sp (readStrings sp rest) := by
  fun_induction readStrings sp rest generalizing i with
  | case1 sp => exact .inl ⟨rfl, h.not_stops (List.drop_eq_nil_iff.mp hrest)⟩
  | case2 sp rest =>
    exact .inr ⟨sp, i, rfl, ⟨h.place, (getElem?_of_drop hrest).1, h.first⟩, h.values, rfl, rfl⟩
  | case3 sp b name rest hkey ih =>
    obtain ⟨hname, hrest'⟩ := getElem?_of_drop hrest
    exact ih (h.other hname (List.cons_ne_nil _ _) hkey) hrest'
  | case4 sp b name key hkey =>
    obtain ⟨hname, hrest'⟩ := getElem?_of_drop hrest
    have hlen : l.length ≤ i + 1 := List.drop_eq_nil_iff.mp hrest'
    refine .inl ⟨rfl, ?_⟩
    rintro ⟨stop, hstop⟩
    have hlt : stop < l.length := (List.getElem?_eq_some_iff.mp hstop.empty).1
    rcases Nat.lt_succ_iff_lt_or_eq.mp (Nat.lt_of_lt_of_le hlt hlen) with hlt | rfl
    · exact h.first stop hlt hstop.place hstop.empty
    · rw [hstop.empty] at hname
      cases hname
  | case5 sp b name key value rest hkey ih =>
    obtain ⟨hname, hrest'⟩ := getElem?_of_drop hrest
    obtain ⟨hvalue, hrest''⟩ := getElem?_of_drop hrest'
    exact ends_set (ih (h.value hname (List.cons_ne_nil _ _) hkey hvalue) hrest'')

end

/-! ## The packet -/

theorem strncpy_isSome_iff {n : Nat} {src : List UInt8} : (strncpy n src).isSome ↔ FieldEnds n src := by
  unfold FieldEnds
  induction n generalizing src with
  | zero => simp [strncpy]
  | succ n ih =>
    cases src with
    | nil => simp [strncpy]
    | cons b rest =>
      by_cases hb : b = 0
      · simp [strncpy, hb]
      · simp [strncpy, hb, ih, Ne.symm hb]

variable {bytes stream : List UInt8}

/-- The packet that the loop starts with. -/
def blank (bytes : List UInt8) : StartupPacket :=
  ⟨bytes, majorOf bytes, ntohl (bytes.take 4) % 2 ^ 16, none, none, none⟩

theorem at_zero (l : List (List UInt8)) : At l 0 (blank bytes) where
  place := rfl
  values key := by cases key <;> rfl
  first _ hj := absurd hj (Nat.not_lt_zero _)

/-- What is required of one packet. -/
def RightOf (bytes : List UInt8) : Prop :=
  parseStartupPacket bytes ≠ .outside ∧
    ∀ sp, parseStartupPacket bytes = .accepted sp → sp.major = 3 →
      ∀ pairs, Parameters (sp.startupPacket.drop 4) pairs →
        ∀ key, sp.get key = pairs.reverse.lookup key.name

theorem right_iff : Right stream ↔ ∀ bytes, received stream = some bytes → RightOf bytes := by
  unfold Right readStartupPacket
  cases received stream with
  | none => simp
  | some bytes => simp [RightOf]

theorem rightOf_v2 (hlen : 4 ≤ bytes.length) (hmajor : majorOf bytes = 2) :
    RightOf bytes ↔ Clear bytes := by
  have hparse : parseStartupPacket bytes = copyFields (blank bytes) (bytes.drop 4) := by
    unfold parseStartupPacket
    rw [if_neg (Nat.not_lt.mpr hlen)]
    simp only [hmajor, blank]
  have hclear : Clear bytes ↔ (strncpy smDatabase (bytes.drop 4)).isSome ∧
      (strncpy smUser ((bytes.drop 4).drop smDatabase)).isSome := by
    rw [strncpy_isSome_iff, strncpy_isSome_iff]
    exact ⟨fun h => h.v2 hmajor, fun h => ⟨hlen, fun _ => h, fun h3 => by omega⟩⟩
  rw [hclear, RightOf, hparse]
  unfold copyFields
  cases strncpy smDatabase (bytes.drop 4) with
  | none => simp
  | some database =>
    cases strncpy smUser ((bytes.drop 4).drop smDatabase) with
    | none => simp
    | some user => simp [blank, hmajor]

theorem rightOf_v3 (hlen : 4 ≤ bytes.length) (hmajor : majorOf bytes = 3) :
    RightOf bytes ↔ Clear bytes := by
  have hparse : parseStartupPacket bytes = readStrings (blank bytes) (strings (bytes.drop 4)) := by
    unfold parseStartupPacket
    rw [if_neg (Nat.not_lt.mpr hlen)]
    simp only [hmajor]
    rw [readParameters_eq (by simp)]
    simp only [blank, hmajor]
  rw [RightOf, hparse]
  obtain ⟨hout, hnone⟩ | ⟨sp, stop, haccept, hstop, hvalues, hbytes, hmajor'⟩ :=
    ends_readStrings (@at_zero bytes (strings (bytes.drop 4))) List.drop_zero
  · refine iff_of_false (fun h => h.1 hout) fun h => hnone ?_
    obtain ⟨stop, hstop, -⟩ := h.v3 hmajor
    exact ⟨stop, hstop⟩
  · rw [haccept]
    constructor
    · rintro ⟨-, hright⟩
      refine ⟨hlen, fun h2 => by omega, fun _ => ⟨stop, hstop, fun pairs hpairs key => ?_⟩⟩
      rw [← hvalues]
      refine hright sp rfl (hmajor'.trans hmajor) pairs ?_ key
      rwa [hbytes]
    · intro hclear
      obtain ⟨stop', hstop', hpairs'⟩ := hclear.v3 hmajor
      obtain rfl := hstop.unique hstop'
      refine ⟨nofun, ?_⟩
      rintro sp' heq - pairs hpairs key
      cases heq
      rw [hbytes] at hpairs
      exact (hvalues key).trans (hpairs' pairs hpairs key)

theorem rightOf_other (hlen : 4 ≤ bytes.length) (h2 : majorOf bytes ≠ 2) (h3 : majorOf bytes ≠ 3) :
    RightOf bytes := by
  have hparse : parseStartupPacket bytes = .refused ∨
      ∃ sp, parseStartupPacket bytes = .accepted sp ∧ sp.major = majorOf bytes := by
    unfold parseStartupPacket
    rw [if_neg (Nat.not_lt.mpr hlen)]
    dsimp only
    split
    · exact absurd ‹_› h2
    · exact absurd ‹_› h3
    · exact .inr ⟨_, rfl, rfl⟩
    · exact .inl rfl
  obtain hrefused | ⟨sp, haccept, hmajor⟩ := hparse
  · exact ⟨by rw [hrefused]; nofun, fun sp haccept => by rw [hrefused] at haccept; cases haccept⟩
  · refine ⟨by rw [haccept]; nofun, fun sp' haccept' h3' => ?_⟩
    rw [haccept] at haccept'
    cases haccept'
    exact absurd (hmajor.symm.trans h3') h3

/-- **Startup packets**: which are read rightly, without looking at other memory. -/
theorem right_iff_clear (stream : List UInt8) :
    Right stream ↔ ∀ bytes, received stream = some bytes → Clear bytes := by
  rw [right_iff]
  refine forall_congr' fun bytes => imp_congr_right fun _ => ?_
  by_cases hlen : 4 ≤ bytes.length
  · by_cases h2 : majorOf bytes = 2
    · exact rightOf_v2 hlen h2
    · by_cases h3 : majorOf bytes = 3
      · exact rightOf_v3 hlen h3
      · exact iff_of_true (rightOf_other hlen h2 h3) ⟨hlen, fun h => absurd h h2, fun h => absurd h h3⟩
  · refine iff_of_false (fun h => h.1 ?_) fun h => hlen h.version
    unfold parseStartupPacket
    rw [if_pos (Nat.lt_of_not_le hlen)]

/-- A packet of V3: the parameter "a" with an empty value, and the user "u". -/
def emptyValue : List UInt8 :=
  [0, 0, 0, 19, 0, 3, 0, 0, 97, 0, 0, 117, 115, 101, 114, 0, 117, 0, 0]

/-- The empty value is taken for the end, and the user is not found. -/
theorem not_right_emptyValue : ¬ Right emptyValue := by
  intro h
  have huser : Parameters (Key.user.name ++ 0 :: ([117] ++ [0, 0])) [(Key.user.name, [117])] :=
    .pair (by decide) (by decide) (by decide) (.done [])
  have hpairs : Parameters ([97] ++ 0 :: ([] ++ 0 :: (Key.user.name ++ 0 :: ([117] ++ [0, 0]))))
      [([97], []), (Key.user.name, [117])] := .pair (by decide) (by decide) (by decide) huser
  have hread : readStartupPacket emptyValue = .accepted ⟨emptyValue.drop 4, 3, 0, none, none, none⟩ := by
    decide
  have hright := h.2 _ hread rfl _ hpairs .user
  revert hright
  decide

end PgPool.Startup
