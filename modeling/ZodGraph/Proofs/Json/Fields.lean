import ZodGraph.Proofs.Graph.Levels

/-!
Objects read as records, whatever the order of their entries. Each field has its one entry or is
left out, entries of other keys play no part, and since the fields change different parts of a
record, the record is the one they make in the order of the fields.
-/

namespace ZodGraph.Json

open Source

/-! ### Entries -/

/-- The entries have the key once, with the value. -/
def Once (es : List (String × Json)) (key : String) (v : Json) : Prop :=
  es.filter (·.1 = key) = [(key, v)]

section Once

variable {es : List (String × Json)} {key : String} {v : Json}

lemma Once.mem (h : Once es key v) : (key, v) ∈ es := by
  have hmem : (key, v) ∈ es.filter (·.1 = key) := by
    rw [show es.filter (·.1 = key) = _ from h]
    exact List.mem_singleton_self _
  exact (List.mem_filter.1 hmem).1

lemma Once.depth_lt (h : Once es key v) : v.depth < (obj es).depth :=
  Nat.lt_succ_of_le (depth_le_of_mem_entries h.mem)

lemma Once.eq_of_mem (h : Once es key v) {w : Json} (hw : (key, w) ∈ es) : w = v := by
  have hmem : (key, w) ∈ es.filter (·.1 = key) := List.mem_filter.2 ⟨hw, by simp⟩
  rw [show es.filter (·.1 = key) = _ from h, List.mem_singleton] at hmem
  exact (Prod.mk.inj hmem).2

lemma Once.count_eq (h : Once es key v) : (es.map Prod.fst).count key = 1 := by
  have hlen := congrArg List.length (show es.filter (·.1 = key) = _ from h)
  rw [List.count, List.countP_map, List.countP_eq_length_filter]
  simpa [Function.comp_def, beq_eq_decide] using hlen

lemma Once.filter_ne (h : Once es key v) {other : String} (hne : key ≠ other) :
    Once (es.filter (·.1 ≠ other)) key v := by
  have hkeep : (es.filter (·.1 ≠ other)).filter (·.1 = key) = es.filter (·.1 = key) := by
    rw [List.filter_filter]
    refine List.filter_congr fun e _ => ?_
    by_cases he : e.1 = key
    · simp [he, hne]
    · simp [he]
  exact hkeep.trans h

lemma Sorted.once (h : Sorted es) (hv : (key, v) ∈ es) : Once es key v := by
  induction es with
  | nil => simp at hv
  | cons e es ih =>
    obtain ⟨hfront, hrest⟩ := List.pairwise_cons.1 h
    unfold Once
    rcases List.mem_cons.1 hv with rfl | hv
    · rw [List.filter_cons_of_pos (by simp), List.filter_eq_nil_iff.2 fun f hf => ?_]
      simpa using (hfront f hf).ne'
    · rw [List.filter_cons_of_neg (by simpa using (hfront _ hv).ne)]
      exact ih hrest hv

lemma Sorted.nodup_keys (h : Sorted es) : (es.map Prod.fst).Nodup :=
  List.pairwise_map.2 (h.imp fun hlt => hlt.ne)

lemma sorted_collapse (es : List (String × Json)) : Sorted (collapseEntries [] es) :=
  sorted_collapseEntries .nil

/-- Collapsing keeps the last value of every key. -/
lemma exists_mem_collapse (h : key ∈ es.map Prod.fst) :
    ∃ w, (key, w) ∈ es ∧ (key, w.collapse) ∈ collapseEntries [] es := by
  obtain ⟨es₁, w, es₂, rfl, hlast⟩ := exists_last_of_key h
  have hsorted : Sorted [] := .nil
  obtain ⟨pre, post, -, hcollapse⟩ := hsorted.collapseEntries_last es₁ hlast
  refine ⟨w, by simp, ?_⟩
  rw [hcollapse w]
  simp

lemma exists_mem_of_collapse {e : String × Json} (h : e ∈ collapseEntries [] es) :
    ∃ w, (e.1, w) ∈ es ∧ e.2 = w.collapse := by
  rcases mem_collapseEntries h with h | ⟨⟨k, w⟩, he, hkey, hvalue⟩
  · simp at h
  · exact ⟨w, by rwa [hkey], hvalue⟩

lemma mem_keys_collapse :
    key ∈ (collapseEntries [] es).map Prod.fst ↔ key ∈ es.map Prod.fst := by
  constructor
  · intro h
    obtain ⟨e, he, rfl⟩ := List.mem_map.1 h
    obtain ⟨w, hw, -⟩ := exists_mem_of_collapse he
    exact List.mem_map.2 ⟨_, hw, rfl⟩
  · intro h
    obtain ⟨w, -, hw⟩ := exists_mem_collapse h
    exact List.mem_map.2 ⟨_, hw, rfl⟩

lemma Once.collapse (h : Once es key v) : Once (collapseEntries [] es) key v.collapse := by
  obtain ⟨w, hw, hmem⟩ := exists_mem_collapse (List.mem_map.2 ⟨_, h.mem, rfl⟩)
  obtain rfl := h.eq_of_mem hw
  exact (sorted_collapse es).once hmem

end Once

/-! ### Values that read the same collapsed -/

/-- The value reads as the result, and so it does collapsed. -/
structure Steady {α : Type} (p : FromValue α) (j : Json) (a : α) : Prop where
  reads : p j = .ok a
  collapsed : p j.collapse = .ok a

section Steady

variable {α β : Type} {p : FromValue α} {j : Json} {a : α}

lemma Steady.of_flat (hj : j.collapse = j) (h : p j = .ok a) : Steady p j a :=
  ⟨h, by rwa [hj]⟩

lemma Steady.collapse (h : Steady p j a) : Steady p j.collapse a :=
  ⟨h.collapsed, by rw [collapse_collapse]; exact h.collapsed⟩

lemma Steady.refine (h : Steady p j a) {f : α → Except Fault β} {b : β} (hf : f a = .ok b) :
    Steady (refine p f) j b :=
  ⟨bind_eq_ok.2 ⟨a, h.reads, hf⟩, bind_eq_ok.2 ⟨a, h.collapsed, hf⟩⟩

lemma Steady.list {js : List Json} {as : List α} (h : List.Forall₂ (Steady p) js as) :
    Steady (FromValue.list p) (arr js) as where
  reads := FromValue.mapM_eq_ok.2 (h.imp fun _ _ hj => hj.reads)
  collapsed := by
    rw [Json.collapse, collapseItems_eq]
    refine FromValue.mapM_eq_ok.2 ?_
    rw [List.forall₂_map_left_iff]
    exact h.imp fun _ _ hj => hj.collapsed

lemma steady_null : Steady (FromValue.nullable p) null none := .of_flat rfl rfl

lemma Steady.nullable (h : Steady p j a) (hj : j ≠ null) :
    Steady (FromValue.nullable p) j (some a) := by
  have hsome (i : Json) (hi : i ≠ null) (hread : p i = .ok a) :
      FromValue.nullable p i = .ok (some a) := by
    cases i with
    | null => exact absurd rfl hi
    | _ => exact FromValue.map_some_eq_ok.2 ⟨a, rfl, hread⟩
  refine ⟨hsome j hj h.reads, hsome j.collapse ?_ h.collapsed⟩
  cases j with
  | null => exact absurd rfl hj
  | _ => simp [Json.collapse]

end Steady

/-! ### Fields in any order -/

/-- What a field does to a record: its one entry reads as that change, or the field is left out
and the blank record has no need of the change. -/
inductive Change {ρ : Type} (blank : ρ) (es : List (String × Json)) (f : Field FromValue ρ)
    (set : ρ → ρ) : Prop
  | given {v : Json} : Once es f.key v → Steady f.put v set → Change blank es f set
  | omitted : f.key ∉ es.map Prod.fst → f.required = false → set blank = blank →
    Change blank es f set

/-- Makes the changes to a record, one after the other. -/
def applyAll {ρ : Type} (sets : List (ρ → ρ)) (r : ρ) : ρ := sets.foldl (fun r set => set r) r

/-- The order of two changes does not matter. -/
def Independent {ρ : Type} (set set' : ρ → ρ) : Prop := ∀ r, set (set' r) = set' (set r)

instance {ρ : Type} : Std.Symm (@Independent ρ) := ⟨fun _ _ h r => (h r).symm⟩

section Changes

variable {ρ : Type} {blank r : ρ} {es : List (String × Json)} {fields : List (Field FromValue ρ)}
  {sets : List (ρ → ρ)} {f : Field FromValue ρ} {set : ρ → ρ}

lemma Change.collapse (h : Change blank es f set) : Change blank (collapseEntries [] es) f set := by
  cases h with
  | given honce hput => exact .given honce.collapse hput.collapse
  | omitted hkey hrequired hblank => exact .omitted (mt mem_keys_collapse.1 hkey) hrequired hblank

lemma Change.filter_ne (h : Change blank es f set) {other : String} (hne : f.key ≠ other) :
    Change blank (es.filter (·.1 ≠ other)) f set := by
  cases h with
  | given honce hput => exact .given (honce.filter_ne hne) hput
  | omitted hkey hrequired hblank =>
    refine .omitted (fun hmem => hkey ?_) hrequired hblank
    exact (List.filter_sublist.map Prod.fst).subset hmem

lemma Change.count_le (h : Change blank es f set) : (es.map Prod.fst).count f.key ≤ 1 := by
  cases h with
  | given honce _ => exact honce.count_eq.le
  | omitted hkey _ _ => exact (List.count_eq_zero.2 hkey).le.trans (Nat.zero_le 1)

lemma count_known_le (fields : List (Field FromValue ρ)) (es : List (String × Json)) (k : String) :
    ((known fields es).map (·.1.key)).count k ≤ (es.map Prod.fst).count k := by
  induction es with
  | nil => simp [known]
  | cons e es ih =>
    rcases hfind : fields.find? (·.key = e.1) with _ | f
    · rw [known_cons_of_none hfind, List.map_cons]
      exact ih.trans List.count_le_count_cons
    · have hkey : f.key = e.1 := by simpa using List.find?_some hfind
      rw [known_cons_of_find hfind, List.map_cons, List.map_cons, hkey, List.count_cons,
        List.count_cons]
      omega

/-- The fields that have an entry, in the order of the fields, each with the value of its entry. -/
def present (fields : List (Field FromValue ρ)) (es : List (String × Json)) :
    List (Field FromValue ρ × Json) :=
  fields.filterMap fun f => (es.find? (·.1 = f.key)).map fun e => (f, e.2)

/-- The change that an entry makes, if it makes one. -/
def putOf (e : Field FromValue ρ × Json) : ρ → ρ := (e.1.put e.2).toOption.getD id

lemma putOf_eq {e : Field FromValue ρ × Json} (h : e.1.put e.2 = .ok set) : putOf e = set := by
  simp [putOf, h, Except.toOption]

lemma steps_put {l : List (Field FromValue ρ × Json)}
    (h : ∀ e ∈ l, ∃ set, e.1.put e.2 = .ok set) :
    Steps (PutStep fun p j a => p j = .ok a) r l (l.foldl (fun r e => putOf e r) r) := by
  induction l generalizing r with
  | nil => exact .nil
  | cons e l ih =>
    obtain ⟨set, hset⟩ := h e (by simp)
    exact .cons ⟨set, hset, congrFun (putOf_eq hset) r⟩ (ih fun e' he' => h e' (by simp [he']))

lemma find?_eq_some_of_once {v : Json} {k : String} (h : Once es k v) :
    es.find? (·.1 = k) = some (k, v) := by
  rw [← List.head?_filter, show es.filter (·.1 = k) = _ from h]
  rfl

lemma present_cons_of_once {v : Json} (h : Once es f.key v) :
    present (f :: fields) es = (f, v) :: present fields es := by
  simp only [present, List.filterMap_cons, find?_eq_some_of_once h, Option.map_some]

lemma present_cons_of_not_mem (h : f.key ∉ es.map Prod.fst) :
    present (f :: fields) es = present fields es := by
  have hfind : es.find? (·.1 = f.key) = none := by
    refine List.find?_eq_none.2 fun e he hkey => h ?_
    exact List.mem_map.2 ⟨e, he, by simpa using hkey⟩
  simp only [present, List.filterMap_cons, hfind, Option.map_none]

lemma mem_known_iff (hkeys : (fields.map (·.key)).Nodup) {v : Json} :
    (f, v) ∈ known fields es ↔ f ∈ fields ∧ (f.key, v) ∈ es := by
  constructor
  · intro h
    obtain ⟨e, he, hf⟩ := List.mem_filterMap.1 h
    obtain ⟨g, hg, heq⟩ := Option.map_eq_some_iff.1 hf
    obtain ⟨rfl, rfl⟩ := Prod.mk.inj heq
    have hkey : g.key = e.1 := by simpa using List.find?_some hg
    rw [hkey]
    exact ⟨List.mem_of_find?_eq_some hg, he⟩
  · rintro ⟨hf, he⟩
    refine mem_known he ?_
    rcases hfind : fields.find? (·.key = f.key) with _ | g
    · simpa using List.find?_eq_none.1 hfind f hf
    · have hkey : g.key = f.key := by simpa using List.find?_some hfind
      obtain rfl := List.inj_on_of_nodup_map hkeys (List.mem_of_find?_eq_some hfind) hf hkey
      exact hfind

lemma mem_present_iff (h : List.Forall₂ (Change blank es) fields sets) {v : Json} :
    (f, v) ∈ present fields es ↔ f ∈ fields ∧ (f.key, v) ∈ es := by
  constructor
  · intro hmem
    obtain ⟨g, hg, heq⟩ := List.mem_filterMap.1 hmem
    obtain ⟨e, he, heq⟩ := Option.map_eq_some_iff.1 heq
    obtain ⟨rfl, rfl⟩ := Prod.mk.inj heq
    have hkey : e.1 = g.key := by simpa using List.find?_some he
    rw [← hkey]
    exact ⟨hg, List.mem_of_find?_eq_some he⟩
  · rintro ⟨hf, he⟩
    refine List.mem_filterMap.2 ⟨f, hf, ?_⟩
    obtain ⟨set, -, hset⟩ := exists_of_mem_right h.flip f hf
    cases hset with
    | given honce _ =>
      rw [find?_eq_some_of_once honce, honce.eq_of_mem he]
      rfl
    | omitted hkey _ _ => exact absurd (List.mem_map.2 ⟨_, he, rfl⟩) hkey

lemma nodup_known_keys (h : List.Forall₂ (Change blank es) fields sets) :
    ((known fields es).map (·.1.key)).Nodup := by
  refine List.nodup_iff_count_le_one.2 fun k => ?_
  by_cases hk : k ∈ (known fields es).map (·.1.key)
  · obtain ⟨e, he, rfl⟩ := List.mem_map.1 hk
    obtain ⟨set, -, hset⟩ := exists_of_mem_right h.flip e.1 (mem_of_mem_known he)
    exact (count_known_le fields es e.1.key).trans hset.count_le
  · rw [List.count_eq_zero.2 hk]
    exact Nat.zero_le 1

/-- The entries that belong to a field are the fields that have an entry. -/
lemma known_perm_present (hkeys : (fields.map (·.key)).Nodup)
    (h : List.Forall₂ (Change blank es) fields sets) :
    (known fields es).Perm (present fields es) := by
  have hknown : (known fields es).Nodup := (nodup_known_keys h).of_map _
  have hpresent : (present fields es).Nodup := by
    refine (hkeys.of_map _).filterMap fun f g e hf hg => ?_
    obtain ⟨_, -, rfl⟩ := Option.map_eq_some_iff.1 hf
    obtain ⟨_, -, heq⟩ := Option.map_eq_some_iff.1 hg
    exact (Prod.mk.inj heq).1.symm
  refine (List.perm_ext_iff_of_nodup hknown hpresent).2 fun e => ?_
  rw [mem_known_iff hkeys, mem_present_iff h]

lemma putOf_mem (h : List.Forall₂ (Change blank es) fields sets) {e : Field FromValue ρ × Json}
    (he : e ∈ present fields es) : putOf e ∈ sets ∧ ∃ set, e.1.put e.2 = .ok set := by
  obtain ⟨f, v⟩ := e
  obtain ⟨hf, hv⟩ := (mem_present_iff h).1 he
  obtain ⟨set, hmem, hset⟩ := exists_of_mem_right h.flip f hf
  cases hset with
  | @given w honce hput =>
    obtain rfl := honce.eq_of_mem hv
    exact ⟨putOf_eq (e := (f, v)) hput.reads ▸ hmem, set, hput.reads⟩
  | omitted hkey _ _ => exact absurd (List.mem_map.2 ⟨_, hv, rfl⟩) hkey

/-- Fields that are left out may as well make their change, as long as the record started as the
blank one in what they change. -/
lemma foldl_present (h : List.Forall₂ (Change blank es) fields sets)
    (hcomm : ∀ s ∈ sets, ∀ t ∈ sets, Independent s t)
    (hfix : ∀ set ∈ sets, set blank = blank → set r = r) :
    (present fields es).foldl (fun r e => putOf e r) r = applyAll sets r := by
  induction h generalizing r with
  | nil => rfl
  | @cons f set fields sets hset _ ih =>
    have hcomm' : ∀ s ∈ sets, ∀ t ∈ sets, Independent s t := fun s hs t ht =>
      hcomm s (by simp [hs]) t (by simp [ht])
    have hstep : applyAll (set :: sets) r = applyAll sets (set r) := rfl
    rw [hstep]
    cases hset with
    | @given v honce hput =>
      rw [present_cons_of_once honce, List.foldl_cons, putOf_eq (e := (f, v)) hput.reads]
      refine ih hcomm' fun t ht hblank => ?_
      rw [hcomm t (by simp [ht]) set (by simp), hfix t (by simp [ht]) hblank]
    | omitted hkey _ hblank =>
      rw [present_cons_of_not_mem hkey, hfix set (by simp) hblank]
      exact ih hcomm' fun t ht => hfix t (by simp [ht])

theorem record_of_changes {title : String} (hkeys : (fields.map (·.key)).Nodup)
    (hcomm : sets.Pairwise Independent) (h : List.Forall₂ (Change blank es) fields sets) :
    FromValue.record title blank fields (obj es) = .ok (applyAll sets blank) := by
  have hall : ∀ s ∈ sets, ∀ t ∈ sets, Independent s t := fun s hs t ht =>
    hcomm.forall_of_forall (fun _ _ _ => rfl) hs ht
  have hperm := known_perm_present hkeys h
  have hputs : ∀ e ∈ known fields es, putOf e ∈ sets ∧ ∃ set, e.1.put e.2 = .ok set :=
    fun e he => putOf_mem h (hperm.mem_iff.1 he)
  have hfold : (known fields es).foldl (fun r e => putOf e r) blank = applyAll sets blank := by
    rw [hperm.foldl_eq' (fun e he e' he' r => hall _ (hputs e' he').1 _ (hputs e he).1 r) blank]
    exact foldl_present h hall fun _ _ hblank => hblank
  have hsteps := steps_put (r := blank) fun e he => (hputs e he).2
  rw [hfold] at hsteps
  refine (LawfulSource.reads_record_entries (m := FromValue) (x := (obj es : Json))
    (fun _ _ => trivial) rfl).2 (record_entries_iff.2 ⟨hsteps, nodup_known_keys h, ?_⟩)
  intro f hf hrequired
  obtain ⟨set, -, hset⟩ := exists_of_mem_right h.flip f hf
  cases hset with
  | given honce _ =>
    exact List.mem_map.2 ⟨_, (mem_known_iff hkeys).2 ⟨hf, honce.mem⟩, rfl⟩
  | omitted _ hopt _ => simp [hopt] at hrequired

lemma steady_record {title : String} (hkeys : (fields.map (·.key)).Nodup)
    (hcomm : sets.Pairwise Independent) (h : List.Forall₂ (Change blank es) fields sets)
    (hr : applyAll sets blank = r) : Steady (FromValue.record title blank fields) (obj es) r := by
  subst hr
  refine ⟨record_of_changes hkeys hcomm h, record_of_changes hkeys hcomm ?_⟩
  exact h.imp fun _ _ => Change.collapse

end Changes

/-! ### Fields as they are written -/

/-- The key stands once, with a value that is written so, or it is left out for its default. -/
inductive HoldsOr {α : Type} (key : String) (Written : α → Json → Prop) (default : α) :
    α → List (String × Json) → Prop
  | given {a : α} {es : List (String × Json)} {v : Json} :
    Once es key v → Written a v → HoldsOr key Written default a es
  | omitted {es : List (String × Json)} :
    key ∉ es.map Prod.fst → HoldsOr key Written default default es

inductive ListWritten {α : Type} (Written : α → Json → Prop) : List α → Json → Prop
  | nil : ListWritten Written [] (arr [])
  | cons {a : α} {as : List α} {j : Json} {js : List Json} : Written a j →
    ListWritten Written as (arr js) → ListWritten Written (a :: as) (arr (j :: js))

inductive NullableWritten {α : Type} (Written : α → Json → Prop) : Option α → Json → Prop
  | null : NullableWritten Written none null
  | some {a : α} {j : Json} : Written a j → NullableWritten Written (some a) j

def TextWritten (s : String) (j : Json) : Prop := j = str s

def FlagWritten (b : Bool) (j : Json) : Prop := j = bool b

section Written

variable {α ρ : Type} {key : String} {Written : α → Json → Prop} {default a : α}
  {es : List (String × Json)} {p : FromValue α} {set : α → ρ → ρ} {blank : ρ} {v j : Json}

lemma Once.change (h : Once es key v) (hp : Steady p v a) :
    Change blank es (required key p set) (set a) := .given h (hp.refine rfl)

lemma HoldsOr.change (h : HoldsOr key Written default a es) (hblank : set default blank = blank)
    (hp : ∀ v, v.depth < (obj es).depth → Written a v → Steady p v a) :
    Change blank es (defaulted key p set) (set a) := by
  cases h with
  | given honce hv => exact .given honce ((hp _ honce.depth_lt hv).refine rfl)
  | omitted hkey => exact .omitted hkey rfl hblank

lemma ListWritten.exists_items {as : List α} (h : ListWritten Written as j) :
    ∃ js, j = arr js ∧ List.Forall₂ Written as js := by
  induction h with
  | nil => exact ⟨[], rfl, .nil⟩
  | cons ha _ ih =>
    obtain ⟨js, hjs, hall⟩ := ih
    obtain rfl := arr.inj hjs
    exact ⟨_, rfl, .cons ha hall⟩

lemma ListWritten.steady {as : List α} (h : ListWritten Written as j)
    (hp : ∀ a ∈ as, ∀ i, i.depth < j.depth → Written a i → Steady p i a) :
    Steady (FromValue.list p) j as := by
  obtain ⟨js, rfl, hall⟩ := h.exists_items
  have hitems : List.Forall₂ (fun a i => Written a i ∧ i.depth < (arr js).depth) as js :=
    forall₂_imp_of_mem hall fun a i hi hw => ⟨hw, Nat.lt_succ_of_le (depth_le_of_mem_items hi)⟩
  exact Steady.list (forall₂_imp_of_mem hitems.flip fun i a ha hi => hp a ha i hi.2 hi.1)

lemma NullableWritten.steady {o : Option α} (h : NullableWritten Written o j)
    (hp : ∀ a, Written a j → j ≠ .null ∧ Steady p j a) : Steady (FromValue.nullable p) j o := by
  cases h with
  | null => exact steady_null
  | some hw => exact (hp _ hw).2.nullable (hp _ hw).1

lemma steady_text (s : String) : Steady FromValue.text (str s) s := .of_flat rfl rfl

lemma TextWritten.steady {s : String} (h : TextWritten s j) : Steady FromValue.text j s := by
  obtain rfl := h
  exact steady_text s

lemma FlagWritten.steady {b : Bool} (h : FlagWritten b j) : Steady FromValue.flag j b := by
  obtain rfl := h
  exact .of_flat rfl rfl

end Written

/-! ### Tagged objects -/

section Tagged

variable {α ρ : Type} {key title tag : String} {body : String → Json → Except Fault α}
  {es : List (String × Json)} {a : α}

/-- A tagged object is what its kind makes of the other entries. -/
lemma steady_tagged (htag : Once es key (str tag))
    (hbody : ∀ es', es' = es ∨ es' = collapseEntries [] es →
      body tag (obj (es'.filter (·.1 ≠ key))) = .ok a) :
    Steady (FromValue.tagged key title body) (obj es) a where
  reads := FromValue.tagged_obj_eq_ok.2 ⟨tag, htag, hbody es (.inl rfl)⟩
  collapsed := FromValue.tagged_obj_eq_ok.2 ⟨tag, htag.collapse, hbody _ (.inr rfl)⟩

lemma steady_tagged_record {name : String} {blank : ρ} {fields : List (Field FromValue ρ)}
    {sets : List (ρ → ρ)} (make : ρ → α) (htag : Once es key (str tag))
    (hbody : ∀ j, body tag j = FromValue.record name blank fields j >>= fun r => .ok (make r))
    (hkeys : (key :: fields.map (·.key)).Nodup) (hcomm : sets.Pairwise Independent)
    (h : List.Forall₂ (Change blank es) fields sets) (ha : make (applyAll sets blank) = a) :
    Steady (FromValue.tagged key title body) (obj es) a := by
  subst ha
  obtain ⟨hnew, hkeys⟩ := List.nodup_cons.1 hkeys
  have hfilter (es' : List (String × Json)) (h' : List.Forall₂ (Change blank es') fields sets) :
      List.Forall₂ (Change blank (es'.filter (·.1 ≠ key))) fields sets := by
    refine (forall₂_imp_of_mem h'.flip fun set f hf hset => hset.filter_ne ?_).flip
    rintro rfl
    exact hnew (List.mem_map.2 ⟨f, hf, rfl⟩)
  refine steady_tagged htag fun es' hes' => ?_
  rw [hbody]
  refine bind_eq_ok.2 ⟨_, record_of_changes hkeys hcomm (hfilter es' ?_), rfl⟩
  obtain rfl | rfl := hes'
  · exact h
  · exact h.imp fun _ _ => Change.collapse

end Tagged

/-! ### Values that are read collapsed as well -/

/-- A value that is read is read collapsed as well, perhaps as something else. -/
def Lasts {α : Type} (p : FromValue α) : Prop := ∀ j a, p j = .ok a → ∃ a', p j.collapse = .ok a'

section Lasts

variable {α β ρ : Type} {p : FromValue α}

/-- What is read from values without parts lasts. -/
lemma lasts_of_flat (h : ∀ j a, p j = .ok a → j.collapse = j) : Lasts p := by
  intro j a ha
  exact ⟨a, by rwa [h j a ha]⟩

lemma lasts_of_total (h : ∀ j, ∃ a, p j = .ok a) : Lasts p := fun j _ _ => h j.collapse

@[simp] lemma lasts_text : Lasts (text : FromValue String) := by
  refine lasts_of_flat (p := FromValue.text) fun j a ha => ?_
  cases j with
  | arr => simp [FromValue.text] at ha
  | obj => simp [FromValue.text] at ha
  | _ => rfl

@[simp] lemma lasts_flag : Lasts (flag : FromValue Bool) := by
  refine lasts_of_flat (p := FromValue.flag) fun j a ha => ?_
  cases j with
  | arr => simp [FromValue.flag] at ha
  | obj => simp [FromValue.flag] at ha
  | _ => rfl

@[simp] lemma lasts_choice {options : List (String × α)} :
    Lasts (choice options : FromValue α) := by
  refine lasts_of_flat (p := FromValue.choice options) fun j a ha => ?_
  cases j with
  | arr => simp [FromValue.choice] at ha
  | obj es =>
    obtain ⟨k, rfl, -⟩ := FromValue.choice_obj_eq_ok ha
    rfl
  | _ => rfl

lemma Lasts.refine (h : Lasts p) {f : α → Except Fault β} (hf : ∀ a, ∃ b, f a = .ok b) :
    Lasts (refine p f) := by
  intro j b hb
  obtain ⟨a, ha, -⟩ := bind_eq_ok.1 hb
  obtain ⟨a', ha'⟩ := h j a ha
  obtain ⟨b', hb'⟩ := hf a'
  exact ⟨b', bind_eq_ok.2 ⟨a', ha', hb'⟩⟩

@[simp] lemma Lasts.nullable (h : Lasts p) : Lasts (Source.nullable p) := by
  intro j o ho
  cases j with
  | null => exact ⟨none, rfl⟩
  | _ =>
    obtain ⟨a, -, ha⟩ := FromValue.map_some_eq_ok.1 ho
    obtain ⟨a', ha'⟩ := h _ a ha
    exact ⟨some a', FromValue.map_some_eq_ok.2 ⟨a', rfl, ha'⟩⟩

@[simp] lemma Lasts.list (h : Lasts p) : Lasts (Source.list p) := by
  change Lasts (FromValue.list p)
  intro j as has
  cases j with
  | arr js =>
    have hitems := FromValue.mapM_eq_ok.1 has
    have hitems' : ∃ as', List.Forall₂ (fun i a => p i = .ok a) (js.map collapse) as' := by
      clear has
      induction hitems with
      | nil => exact ⟨[], .nil⟩
      | @cons i a js as ha _ ih =>
        obtain ⟨a', ha'⟩ := h i a ha
        obtain ⟨as', has'⟩ := ih
        exact ⟨a' :: as', .cons ha' has'⟩
    obtain ⟨as', has'⟩ := hitems'
    refine ⟨as', ?_⟩
    rw [Json.collapse, collapseItems_eq]
    exact FromValue.mapM_eq_ok.2 has'
  | _ => simp [FromValue.list] at has

@[simp] lemma Lasts.required (h : Lasts p) (key : String) (set : α → ρ → ρ) :
    Lasts (Source.required key p set).put := h.refine fun a => ⟨set a, rfl⟩

@[simp] lemma Lasts.defaulted (h : Lasts p) (key : String) (set : α → ρ → ρ) :
    Lasts (Source.defaulted key p set).put := h.refine fun a => ⟨set a, rfl⟩

section Record

variable {fields : List (Field FromValue ρ)}

lemma exists_put_of_steps {l : List (Field FromValue ρ × Json)} {r r' : ρ}
    (h : Steps (PutStep fun p j a => p j = .ok a) r l r') :
    ∀ e ∈ l, ∃ set, e.1.put e.2 = .ok set := by
  induction h with
  | nil => simp
  | cons hstep _ ih =>
    obtain ⟨set, hset, -⟩ := hstep
    exact List.forall_mem_cons.2 ⟨⟨set, hset⟩, ih⟩

lemma Lasts.record {title : String} {blank : ρ} (hkeys : (fields.map (·.key)).Nodup)
    (h : ∀ f ∈ fields, Lasts f.put) : Lasts (FromValue.record title blank fields) := by
  intro j a ha
  cases j with
  | arr js =>
    obtain ⟨hsteps, hlen, hrest⟩ := positional_iff.1 (FromValue.positional_eq_ok.1 ha)
    have hputs := exists_put_of_steps hsteps
    have hputs' : ∀ e ∈ fields.zip (js.map collapse), ∃ set, e.1.put e.2 = .ok set := by
      rw [List.zip_map_right]
      intro e he
      obtain ⟨⟨f, i⟩, hfi, rfl⟩ := List.mem_map.1 he
      obtain ⟨set, hset⟩ := hputs (f, i) hfi
      exact h f (List.of_mem_zip hfi).1 i set hset
    have hsteps' := steps_put (r := blank) hputs'
    rw [Json.collapse, collapseItems_eq]
    exact ⟨_, FromValue.positional_eq_ok.2 (positional_iff.2 ⟨hsteps', by simpa using hlen,
      by simpa using hrest⟩)⟩
  | obj es =>
    obtain ⟨hsteps, -, hrequired⟩ := record_entries_iff.1
      ((LawfulSource.reads_record_entries (m := FromValue) (x := (obj es : Json))
        (fun _ _ => trivial) rfl).1 ha)
    have hputs := exists_put_of_steps hsteps
    have hputs' : ∀ e ∈ known fields (collapseEntries [] es), ∃ set, e.1.put e.2 = .ok set := by
      rintro ⟨f, v⟩ he
      obtain ⟨hf, hv⟩ := (mem_known_iff hkeys).1 he
      obtain ⟨w, hw, rfl⟩ := exists_mem_of_collapse hv
      obtain ⟨set, hset⟩ := hputs (f, w) ((mem_known_iff hkeys).2 ⟨hf, hw⟩)
      exact h f hf w set hset
    have hsteps' := steps_put (r := blank) hputs'
    refine ⟨_, (LawfulSource.reads_record_entries (m := FromValue)
      (x := (obj (collapseEntries [] es) : Json)) (fun _ _ => trivial) rfl).2
        (record_entries_iff.2 ⟨hsteps', ?_, ?_⟩)⟩
    · refine List.nodup_iff_count_le_one.2 fun k => (count_known_le fields _ k).trans ?_
      exact List.nodup_iff_count_le_one.1 (sorted_collapse es).nodup_keys k
    · intro f hf hreq
      obtain ⟨e, he, hkey⟩ := List.mem_map.1 (hrequired f hf hreq)
      have hmem : f.key ∈ es.map Prod.fst := hkey ▸ key_mem_of_mem_known he
      obtain ⟨w, -, hw⟩ := exists_mem_collapse hmem
      exact List.mem_map.2 ⟨(f, w.collapse), (mem_known_iff hkeys).2 ⟨hf, hw⟩, rfl⟩
  | _ => simp [FromValue.record] at ha

end Record

end Lasts

end ZodGraph.Json
