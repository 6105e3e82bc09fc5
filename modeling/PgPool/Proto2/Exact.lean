import PgPool.Proto2.Messages

/-!
# Messages that are relayed exactly

Handler by handler: with messages that do not meet its defects, it takes each node's own message off
the stream and writes that of the master.
-/

namespace PgPool.Proto2

variable {nodes : Nodes} {b : Bool} {fmt : Format} {numFields : Nat}

/-! ## Rows -/

/-- The null maps of the nodes, and the one that stays in the buffer. -/
theorem reads_maps {map : Nat → List UInt8} {n : Nat} {f : List UInt8 → Act Unit}
    {a : Nat → List UInt8} {o : List UInt8}
    (hmap : ∀ i ∈ nodes.valid, (map i).length = n)
    (hf : Reads nodes b (f (map nodes.lastRead)) a o ()) :
    Reads nodes b (each (fun j _ => poolRead j n) nodes.others (map nodes.master) >>= f)
      (fun i => (if i ∈ nodes.others then map i else []) ++ a i) o () := by
  have hread := @reads_each _ nodes b (fun j _ => poolRead j n) map (fun j _ => map j) nodes.others
    nodup_others (fun j hj _ => reads_poolRead (mem_others.mp hj).1 (hmap j (mem_others.mp hj).1))
    (map nodes.master)
  rw [foldl_last] at hread
  refine Reads.congr (Reads.bind hread ?_) (fun _ _ => rfl) (List.nil_append _).symm rfl
  have hlast : (nodes.others.getLast?.map map).getD (map nodes.master) = map nodes.lastRead := by
    unfold Nodes.lastRead
    cases nodes.others.getLast? <;> rfl
  rw [hlast]
  exact hf

/-- A row without fields has no null map, and no values. -/
theorem reads_noFields {map counted : Nat → List UInt8} {vals : Nat → List (List UInt8)} {extra : Nat}
    (hnone : mapLen numFields ≤ 0) (hmap : ∀ i ∈ nodes.valid, (map i).length = mapLen numFields)
    (hcount : ∀ i ∈ nodes.valid, (vals i).length = nonNull (counted i) numFields 0) :
    Reads nodes b (pure ()) (fun i => map i ++ (vals i).flatMap (sized extra))
      (map nodes.master ++ (vals nodes.master).flatMap (sized extra)) () := by
  have hzero : numFields = 0 := by
    unfold mapLen at hnone
    omega
  have hnil : ∀ i ∈ nodes.valid, map i ++ (vals i).flatMap (sized extra) = [] := by
    intro i hi
    have hm : map i = [] := List.eq_nil_of_length_eq_zero (by rw [hmap i hi]; omega)
    have hv : vals i = [] := List.eq_nil_of_length_eq_zero (by rw [hcount i hi, hzero]; rfl)
    rw [hm, hv]
    rfl
  exact Reads.congr (Reads.pure ()) hnil (hnil _ nodes.master_mem) rfl

theorem reads_asciiRow {map : Nat → List UInt8} {vals : Nat → List (List UInt8)}
    (hmap : ∀ i ∈ nodes.valid, (map i).length = mapLen numFields)
    (hcount : ∀ i ∈ nodes.valid, (vals i).length = nonNull (map nodes.lastRead) numFields 0)
    (hvals : ∀ i ∈ nodes.valid, ∀ v ∈ vals i, v.length + 4 < 2 ^ 31) :
    Reads nodes b (asciiRow nodes numFields) (fun i => map i ++ (vals i).flatMap (sized 4))
      (0x44 :: (map nodes.master ++ (vals nodes.master).flatMap (sized 4))) () := by
  refine Reads.congr (Reads.bind (reads_poolWrite [0x44])
    (c := fun i => map i ++ (vals i).flatMap (sized 4))
    (p := map nodes.master ++ (vals nodes.master).flatMap (sized 4)) ?_) (fun _ _ => rfl) rfl rfl
  by_cases hnone : mapLen numFields ≤ 0
  · rw [if_pos hnone]
    exact reads_noFields hnone hmap hcount
  · rw [if_neg hnone]
    refine Reads.congr (Reads.bind (reads_poolRead nodes.master_mem (hmap _ nodes.master_mem))
      (reads_maps hmap (Reads.bind (reads_poolWrite (map nodes.master))
        (reads_asciiFields (i := 0) rfl hcount hvals)))) ?_ rfl rfl
    intro i hi
    have hsplit := @master_then_others nodes map i hi
    simp only [List.nil_append]
    rw [← List.append_assoc, ← hsplit]

/-- A binary row without values: the bits that are tested are those of the first field of each byte. -/
theorem binaryFields_nil {map : List UInt8} {n k i : Nat} (hmap : ∀ j < n, ¬ isSet map j) (hk : i + k ≤ n)
    {mask : UInt8} (hmask : renewed mask = 0x80) : binaryFields nodes map k i mask = pure () := by
  induction k generalizing i mask with
  | zero => rfl
  | succ k ih =>
    unfold binaryFields
    have hbit : ¬ renewed mask &&& map.getD (i / 8) 0 ≠ 0 := by
      have hfirst := hmap (8 * (i / 8)) (by omega)
      unfold isSet at hfirst
      rw [show 8 * (i / 8) % 8 = 0 by omega, show 8 * (i / 8) / 8 = i / 8 by omega] at hfirst
      rw [hmask]
      exact hfirst
    rw [if_neg hbit]
    exact ih (by omega) (by rw [hmask]; rfl)

theorem not_isSet_of_nonNull {map : List UInt8} {k i j : Nat} (h : nonNull map k i = 0) (hi : i ≤ j)
    (hj : j < i + k) : ¬ isSet map j := by
  induction k generalizing i with
  | zero => omega
  | succ k ih =>
    unfold nonNull at h
    by_cases hset : isSet map i
    · rw [if_pos hset] at h
      omega
    · rw [if_neg hset, Nat.zero_add] at h
      by_cases hij : i = j
      · exact hij ▸ hset
      · exact ih h (by omega) (by omega)

/-- On one node whose sizes count themselves, a field of a binary row is read whole. -/
theorem reads_binaryField {i : Nat} {v : List UInt8} (hone : nodes.numBackends = 1)
    (hv : v.length + 4 < 2 ^ 31) :
    Reads nodes b (do
        let size ← poolRead nodes.master 4
        binaryField nodes i (List.range nodes.numBackends) size)
      (fun j => only nodes.master (sized 4 v) j) (sized 4 v) () := by
  have hzero : nodes.master = 0 := by
    have hlt := nodes.lt _ nodes.master_mem
    omega
  have hlen : binaryLen (htonl (v.length + 4)) = v.length := by
    unfold binaryLen
    rw [ntohl_htonl (by omega)]
    omega
  refine Reads.congr (Reads.bind (reads_poolRead nodes.master_mem (length_htonl (v.length + 4)))
    (c := only nodes.master v) (p := sized 4 v) ?_) ?_ rfl rfl
  · rw [hone]
    show Reads nodes b (binaryField nodes i [0] _) _ _ _
    unfold binaryField binarySize forMaster
    rw [if_neg (by rw [hzero]; simp), pure_bind, if_pos hzero.symm]
    refine Reads.congr (Reads.bind (reads_poolWrite _)
      (Reads.bind (a := only nodes.master v) (o := v) (v := ()) ?_ (Reads.pure ()))) ?_ ?_ rfl
    · rw [hlen]
      unfold binaryValue onConnection forMaster
      by_cases hpos : 0 < v.length
      · rw [if_pos ⟨hpos, by omega⟩, if_pos (hzero ▸ nodes.master_mem)]
        simp only [if_pos hzero.symm]
        exact Reads.congr (Reads.bind (reads_poolRead2 (hzero ▸ nodes.master_mem) rfl (.inl hpos))
          (reads_poolWrite v)) (fun _ _ => by rw [hzero, List.append_nil]) rfl rfl
      · rw [if_neg (fun h => hpos h.1)]
        have hnil : v = [] := List.eq_nil_of_length_eq_zero (by omega)
        exact Reads.congr (Reads.pure ()) (fun _ _ => by simp [only, hnil]) hnil rfl
    · intro j _
      simp
    · simp [sized]
  · intro j _
    by_cases hj : j = nodes.master <;> simp [only, hj, sized]

theorem reads_binaryFields {map : List UInt8} {k i : Nat} {mask : UInt8} {vals : List (List UInt8)}
    (hone : nodes.numBackends = 1) (hcount : binaryCount map k i mask = vals.length)
    (hvals : ∀ v ∈ vals, v.length + 4 < 2 ^ 31) :
    Reads nodes b (binaryFields nodes map k i mask)
      (only nodes.master (vals.flatMap (sized 4))) (vals.flatMap (sized 4)) () := by
  induction k generalizing i mask vals with
  | zero =>
    rw [List.eq_nil_of_length_eq_zero hcount.symm]
    exact Reads.congr (Reads.pure ()) (fun _ _ => by simp [only]) rfl rfl
  | succ k ih =>
    unfold binaryFields
    unfold binaryCount at hcount
    by_cases hset : renewed mask &&& map.getD (i / 8) 0 ≠ 0
    · rw [if_pos hset] at hcount ⊢
      obtain ⟨v, vs, rfl⟩ := List.exists_cons_of_length_pos (show 0 < vals.length by omega)
      have htail := @ih (i + 1) (renewed mask >>> 1) vs (by
        rw [List.length_cons] at hcount
        omega) (fun w hw => hvals w (List.mem_cons_of_mem _ hw))
      have hhead := @reads_binaryField nodes b i v hone (hvals v List.mem_cons_self)
      have hboth := Reads.bind (f := fun _ => binaryFields nodes map k (i + 1) (renewed mask >>> 1))
        hhead htail
      rw [bind_assoc] at hboth
      refine Reads.congr hboth ?_ rfl rfl
      intro j _
      by_cases hj : j = nodes.master <;> simp [only, hj]
    · rw [if_neg hset] at hcount ⊢
      exact ih hcount hvals

/-! ## Strings -/

theorem reads_sameLength {kind : UInt8} {excused : List UInt8 → Bool} {text : Nat → List UInt8}
    (htext : ∀ i ∈ nodes.valid, 0 ∉ text i)
    (hlen : ∀ i ∈ nodes.valid, (text i).length = (text nodes.master).length ∨
      excused (text nodes.master ++ [0]) = true) :
    Reads nodes b (sameLength kind excused nodes) (fun i => text i ++ [0])
      (kind :: (text nodes.master ++ [0])) () := by
  refine reads_forward (w := fun i => text i ++ [0])
    (reads_poolReadString nodes.master_mem (htext _ nodes.master_mem)) ?_
  refine Reads.congr (Reads.bind (reads_each (w := fun i => text i ++ [0])
    (v := fun j _ => text j ++ [0]) nodup_others ?_ _) (reads_poolWrite _)) ?_ rfl rfl
  · intro j hj last
    have hj := (mem_others.mp hj).1
    refine Reads.congr (Reads.bind (reads_poolReadString hj (htext j hj)) ?_)
      (fun _ _ => (List.append_nil _).symm) rfl rfl
    rw [if_neg]
    · exact Reads.pure _
    · intro ⟨hne, hex⟩
      obtain hsame | hexcused := hlen j hj
      · exact hne (by rw [List.length_append, List.length_append, hsame])
      · rw [hexcused] at hex
        cases hex
  · intro j _
    rw [List.append_nil]

theorem reads_emptyQueryResponse :
    Reads nodes b (emptyQueryResponse nodes) (fun _ => [0]) [0x49, 0] () := by
  refine Reads.congr (Reads.bind (reads_each (w := fun _ => [0]) (v := fun _ _ => [0]) nodes.nodup
    (fun j hj _ => reads_poolRead hj rfl) []) (reads_poolWrite _)) ?_ rfl rfl
  intro j hj
  rw [if_pos hj, List.append_nil]

theorem reads_lastString {kind : UInt8} {text : Nat → List UInt8}
    (htext : ∀ i ∈ nodes.valid, 0 ∉ text i) (hlast : text nodes.lastValid = text nodes.master) :
    Reads nodes b (lastString kind nodes) (fun i => text i ++ [0])
      (kind :: (text nodes.master ++ [0])) () := by
  have hread := @reads_each _ nodes b (fun j _ => poolReadString j) (fun i => text i ++ [0])
    (fun j _ => text j ++ [0]) nodes.valid nodes.nodup (fun j hj _ => reads_poolReadString hj (htext j hj))
    []
  have hkept : (nodes.valid.getLast?.map fun j => text j ++ [0]).getD [] = text nodes.master ++ [0] := by
    rw [← hlast]
    unfold Nodes.lastValid
    cases hv : nodes.valid.getLast? with
    | none =>
      rw [List.getLast?_eq_none_iff] at hv
      have hmem := nodes.master_mem
      rw [hv] at hmem
      cases hmem
    | some i => rfl
  rw [foldl_last, hkept] at hread
  refine Reads.congr (Reads.bind hread (reads_poolWrite _)) ?_ rfl rfl
  intro j hj
  rw [if_pos hj, List.append_nil]

/-- What the loop of `NotificationResponse` keeps is what the master has sent. -/
theorem foldl_keep {w : Nat → List UInt8} {m : Nat} (is : List Nat) (last : List UInt8) :
    is.foldl (fun kept j => if j = m then w j else kept) last = if m ∈ is then w m else last := by
  induction is generalizing last with
  | nil => rfl
  | cons i is ih =>
    rw [List.foldl_cons, ih]
    by_cases him : i = m
    · simp [him]
    · simp [him, Ne.symm him]

theorem reads_notificationResponse {pid : Nat → UInt32} {condition : Nat → List UInt8}
    (hcond : ∀ i ∈ nodes.valid, 0 ∉ condition i) :
    Reads nodes b (notificationResponse nodes)
      (fun i => htonl (pid i).toNat ++ (condition i ++ [0]))
      (0x41 :: (htonl (pid nodes.master).toNat ++ (condition nodes.master ++ [0]))) () := by
  have hread := @reads_each _ nodes b (fun j kept => do
      let pid ← poolRead j 4
      let condition ← poolReadString j
      pure (if j = nodes.master then pid ++ condition else kept))
    (fun i => htonl (pid i).toNat ++ (condition i ++ [0]))
    (fun j kept => if j = nodes.master then htonl (pid j).toNat ++ (condition j ++ [0]) else kept)
    nodes.valid nodes.nodup (by
      intro j hj kept
      refine Reads.congr (Reads.bind (reads_poolRead hj (length_htonl _))
        (Reads.bind (reads_poolReadString hj (hcond j hj)) (Reads.pure _))) ?_ rfl rfl
      intro i _
      by_cases hij : i = j <;> simp [only, hij]) []
  rw [@foldl_keep (fun j => htonl (pid j).toNat ++ (condition j ++ [0])) nodes.master,
    if_pos nodes.master_mem] at hread
  refine Reads.congr (Reads.bind (reads_poolWrite [0x41]) (Reads.bind hread (reads_poolWrite _)))
    ?_ rfl rfl
  intro j hj
  simp [hj]

/-! ## Function results -/

theorem reads_functionResultResponse {value : Option (List UInt8)}
    (hone : nodes.valid = [nodes.master]) (hempty : value = none → fmt.unusedAfterEmpty = true)
    (hbuf : value = some [] → b = true) (hsmall : ∀ v ∈ value, v.length < 2 ^ 31) :
    Reads nodes b (functionResultResponse nodes) (fun _ => (Message.functionResult value).body fmt)
      (0x56 :: (Message.functionResult value).body fmt) () := by
  have hsingle : ∀ {w : List UInt8} {act : Act (List UInt8)},
      Reads nodes b act (only nodes.master w) [] w →
      Reads nodes b (each (fun _ _ => act) nodes.valid []) (only nodes.master w) [] w := by
    intro w act h
    rw [hone]
    refine Reads.congr (Reads.bind h (Reads.pure w)) (fun _ _ => (List.append_nil _).symm) rfl rfl
  have hread : ∀ {w : List UInt8} {n : Nat}, w.length = n →
      Reads nodes b (each (fun j _ => poolRead j n) nodes.valid []) (only nodes.master w) [] w := by
    intro w n hw
    rw [hone]
    refine Reads.congr (Reads.bind (reads_poolRead nodes.master_mem hw) (Reads.pure w))
      (fun _ _ => (List.append_nil _).symm) rfl rfl
  have hmaster : ∀ i ∈ nodes.valid, i = nodes.master := by
    intro i hi
    rw [hone] at hi
    exact List.mem_singleton.mp hi
  cases value with
  | none =>
    refine Reads.congr (Reads.bind (reads_poolWrite [0x56]) (Reads.bind (hread (w := [0x30]) rfl)
      (Reads.bind (reads_poolWrite _) (Reads.bind (Reads.pure ()) (Reads.bind
        (hsingle (reads_poolRead (w := [0x30]) nodes.master_mem rfl)) (reads_poolWrite [0x30]))))))
      ?_ ?_ rfl
    · intro i hi
      rw [hmaster i hi]
      simp [Message.body, hempty rfl]
    · simp [Message.body, hempty rfl]
  | some v =>
    have hlen := ntohl_htonl (show v.length + 0 < 2 ^ 32 by
      have := hsmall v rfl
      omega)
    have hvalue : Reads nodes b (functionValue nodes [0x47]) (only nodes.master (sized 0 v))
        (sized 0 v) () := by
      unfold functionValue
      rw [if_pos rfl]
      have hbuf' : 0 < v.length ∨ (b = true ∧ nodes.master = nodes.master) := by
        by_cases hpos : 0 < v.length
        · exact .inl hpos
        · exact .inr ⟨hbuf (by rw [List.eq_nil_of_length_eq_zero (Nat.eq_zero_of_not_pos hpos)]), rfl⟩
      refine Reads.congr (Reads.bind (hread (length_htonl (v.length + 0))) (Reads.bind
        (reads_poolWrite _) (Reads.bind (hsingle (w := v) ?_) (reads_poolWrite v)))) ?_ ?_ rfl
      · rw [hlen]
        exact reads_poolRead2 nodes.master_mem rfl hbuf'
      · intro i hi
        rw [hmaster i hi]
        simp [sized]
      · simp [sized]
    refine Reads.congr (Reads.bind (reads_poolWrite [0x56]) (Reads.bind (hread (w := [0x47]) rfl)
      (Reads.bind (reads_poolWrite _) (Reads.bind hvalue (Reads.bind
        (hsingle (reads_poolRead (w := [0x30]) nodes.master_mem rfl)) (reads_poolWrite [0x30]))))))
      ?_ ?_ rfl
    · intro i hi
      rw [hmaster i hi]
      simp [Message.body]
    · simp [Message.body]

/-! ## Row descriptions -/

@[simp] theorem length_htons (n : Nat) : (htons n).length = 2 := rfl

theorem ntohs_htons {n : Nat} (h : n < 2 ^ 15) : ntohs (htons n) = n := by
  have hvalue : ntohl (htons n) = n := by
    simp only [ntohl, htons, List.foldl_cons, List.foldl_nil, UInt8.toNat_ofNat']
    omega
  unfold ntohs
  rw [hvalue, if_pos h]

theorem reads_descriptionName {name : Nat → List UInt8} (hname : ∀ i ∈ nodes.valid, 0 ∉ name i)
    (hlen : ∀ i ∈ nodes.valid, (name i).length = (name nodes.master).length) :
    Reads nodes b (descriptionName nodes) (fun i => name i ++ [0]) (name nodes.master ++ [0]) () := by
  refine reads_forward (w := fun i => name i ++ [0])
    (reads_poolReadString nodes.master_mem (hname _ nodes.master_mem)) ?_
  refine Reads.congr (Reads.bind (reads_poolWrite _) (Reads.bind (reads_each
    (w := fun i => name i ++ [0]) (v := fun j _ => name j ++ [0]) nodup_others ?_ _)
    (Reads.pure ()))) ?_ (by simp) rfl
  · intro j hj last
    have hj := (mem_others.mp hj).1
    refine Reads.congr (Reads.bind (reads_poolReadString hj (hname j hj)) ?_)
      (fun _ _ => (List.append_nil _).symm) rfl rfl
    rw [if_neg (by simp [hlen j hj])]
    exact Reads.pure _
  · intro j _
    simp

theorem reads_descriptionField {field : Nat → Field} (hname : ∀ i ∈ nodes.valid, 0 ∉ (field i).name)
    (hlen : ∀ i ∈ nodes.valid, (field i).name.length = (field nodes.master).name.length) :
    Reads nodes b (descriptionField nodes) (fun i => (field i).bytes) (field nodes.master).bytes () := by
  refine Reads.congr (Reads.bind (@reads_descriptionName nodes b (fun i => (field i).name) hname hlen)
    (Reads.bind (reads_forwardFixed (w := fun i => htonl (field i).oid.toNat) (fun _ _ => rfl))
      (Reads.bind (reads_forwardFixed (w := fun i => htons (field i).size.toNat) (fun _ _ => rfl))
        (reads_forwardFixed (w := fun i => htonl (field i).modifier.toNat) (fun _ _ => rfl)))))
    (fun _ _ => rfl) rfl rfl

theorem reads_descriptionFields {k : Nat} {fields : Nat → List Field}
    (hcount : ∀ i ∈ nodes.valid, (fields i).length = k)
    (hname : ∀ i ∈ nodes.valid, ∀ f ∈ fields i, 0 ∉ f.name)
    (hlen : ∀ i ∈ nodes.valid, (fields i).map (fun f => f.name.length) =
      (fields nodes.master).map (fun f => f.name.length)) :
    Reads nodes b (descriptionFields nodes k) (fun i => (fields i).flatMap Field.bytes)
      ((fields nodes.master).flatMap Field.bytes) () := by
  induction k generalizing fields with
  | zero =>
    have hnil : ∀ i ∈ nodes.valid, fields i = [] := fun i hi => List.eq_nil_of_length_eq_zero (hcount i hi)
    refine Reads.congr (Reads.pure ()) ?_ (by rw [hnil _ nodes.master_mem]; rfl) rfl
    intro i hi
    rw [hnil i hi]
    rfl
  | succ k ih =>
    have hsplit : ∀ i ∈ nodes.valid, fields i = (fields i).headD ⟨[], 0, 0, 0⟩ :: (fields i).tail := by
      intro i hi
      obtain ⟨f, fs, hf⟩ := List.exists_cons_of_length_pos (show 0 < (fields i).length by
        rw [hcount i hi]
        omega)
      rw [hf]
      rfl
    have hhead := @reads_descriptionField nodes b (fun i => (fields i).headD ⟨[], 0, 0, 0⟩)
      (fun i hi => hname i hi _ (by
        rw [hsplit i hi]
        exact List.mem_cons_self))
      (fun i hi => by
        have h := hlen i hi
        rw [hsplit i hi, hsplit _ nodes.master_mem] at h
        exact (List.cons.inj h).1)
    have htail := @ih (fun i => (fields i).tail)
      (fun i hi => by
        rw [List.length_tail, hcount i hi]
        rfl)
      (fun i hi f hf => hname i hi f (List.mem_of_mem_tail hf))
      (fun i hi => by
        have h := hlen i hi
        rw [hsplit i hi, hsplit _ nodes.master_mem] at h
        exact (List.cons.inj h).2)
    refine Reads.congr (Reads.bind hhead htail) ?_ ?_ rfl
    · intro i hi
      show (fields i).flatMap Field.bytes = _
      rw [hsplit i hi]
      rfl
    · rw [hsplit _ nodes.master_mem]
      rfl

/-- What all nodes must send alike. -/
theorem reads_alike {β : Type} {n : Nat} {w : List UInt8} {f : List UInt8 → Act β}
    {a : Nat → List UInt8} {o : List UInt8} {v : β} (hw : w.length = n) (hf : Reads nodes b (f w) a o v) :
    Reads nodes b (do
        let first ← poolRead nodes.master n
        let last ← each (fun j _ => do
          let other ← poolRead j n
          if other ≠ first then StateT.lift none else pure other) nodes.others first
        f last) (fun i => w ++ a i) o v := by
  have hothers := @reads_each _ nodes b (fun j _ => do
      let other ← poolRead j n
      if other ≠ w then StateT.lift none else pure other) (fun _ => w) (fun _ _ => w) nodes.others
    nodup_others (fun j hj _ => Reads.congr (Reads.bind (reads_poolRead (mem_others.mp hj).1 hw) (by
      rw [if_neg (not_not.mpr rfl)]
      exact Reads.pure w)) (fun _ _ => (List.append_nil _).symm) rfl rfl) w
  have hkept : nodes.others.foldl (fun (_ : List UInt8) (_ : Nat) => w) w = w := by
    rw [foldl_last]
    cases nodes.others.getLast? <;> rfl
  rw [hkept] at hothers
  refine Reads.congr (Reads.bind (reads_poolRead nodes.master_mem hw) (Reads.bind hothers hf)) ?_ rfl rfl
  intro i hi
  rw [← List.append_assoc, ← master_then_others (w := fun _ => w) hi]

theorem reads_rowDescription {fields : Nat → List Field}
    (hshort : ∀ i ∈ nodes.valid, (fields i).length < 2 ^ 15)
    (hname : ∀ i ∈ nodes.valid, ∀ f ∈ fields i, 0 ∉ f.name)
    (hlen : ∀ i ∈ nodes.valid, (fields i).map (fun f => f.name.length) =
      (fields nodes.master).map (fun f => f.name.length)) :
    Reads nodes b (rowDescription nodes)
      (fun i => htons (fields i).length ++ (fields i).flatMap Field.bytes)
      (0x54 :: (htons (fields nodes.master).length ++ (fields nodes.master).flatMap Field.bytes))
      (fields nodes.master).length := by
  have hcount : ∀ i ∈ nodes.valid, (fields i).length = (fields nodes.master).length := by
    intro i hi
    have h := congrArg List.length (hlen i hi)
    rwa [List.length_map, List.length_map] at h
  have hntohs := ntohs_htons (hshort _ nodes.master_mem)
  refine Reads.congr (reads_alike (length_htons (fields nodes.master).length)
    (Reads.bind (reads_poolWrite [0x54]) (Reads.bind (reads_poolWrite _) (Reads.bind (v := ())
      (a := fun i => (fields i).flatMap Field.bytes) (o := (fields nodes.master).flatMap Field.bytes) ?_
      (Reads.pure _))))) ?_ ?_ hntohs.symm
  · rw [hntohs]
    exact reads_descriptionFields hcount hname hlen
  · intro i hi
    simp [hcount i hi]
  · simp

end PgPool.Proto2
