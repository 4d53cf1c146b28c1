import ZodGraph.Proofs.Json.Lawful

/-!
Replacing one part of a document, and readers that confine such a change: where the part is read
by a reader of its own, the whole is read again and differs in what that reader gives, and in
nothing else. What such a reader gives was in the document, unless it is what a blank record has.
-/

namespace ZodGraph.Json

open Source LawfulSource

/-- A part of a list or object. A field is looked up by its key in an object, where the last entry
counts, and by its index in a list. -/
inductive Part where
  | item (index : Nat)
  | field (key : String) (index : Nat)

/-- Where the part stands in a list. -/
def Part.index : Part → Nat
  | item i => i
  | field _ i => i

section Lists

variable {α β : Type} {R : α → β → Prop} {xs ys : List α} {y : α} {zs : List β}

lemma forall₂_middle : List.Forall₂ R (xs ++ y :: ys) zs ↔
    ∃ zs₁ z zs₂, zs = zs₁ ++ z :: zs₂ ∧ List.Forall₂ R xs zs₁ ∧ R y z ∧
      List.Forall₂ R ys zs₂ := by
  induction xs generalizing zs with
  | nil =>
    simp only [List.nil_append, List.forall₂_cons_left_iff, List.forall₂_nil_left_iff]
    constructor
    · rintro ⟨z, zs₂, hz, hzs, rfl⟩
      exact ⟨[], z, zs₂, rfl, rfl, hz, hzs⟩
    · rintro ⟨_, z, zs₂, rfl, rfl, hz, hzs⟩
      exact ⟨z, zs₂, hz, hzs, rfl⟩
  | cons x xs ih =>
    simp only [List.cons_append, List.forall₂_cons_left_iff, ih]
    constructor
    · rintro ⟨w, _, hw, ⟨zs₁, z, zs₂, rfl, hxs, hz, hys⟩, rfl⟩
      exact ⟨w :: zs₁, z, zs₂, rfl, ⟨w, zs₁, hw, hxs, rfl⟩, hz, hys⟩
    · rintro ⟨_, z, zs₂, rfl, ⟨w, zs₁, hw, hxs, rfl⟩, hz, hys⟩
      exact ⟨w, _, hw, ⟨zs₁, z, zs₂, rfl, hxs, hz, hys⟩, rfl⟩

lemma forall₂_middle_right {z : β} {zs' : List β} (h : List.Forall₂ R xs (zs ++ z :: zs')) :
    ∃ xs₁ x xs₂, xs = xs₁ ++ x :: xs₂ ∧ List.Forall₂ R xs₁ zs ∧ R x z ∧
      List.Forall₂ R xs₂ zs' := by
  obtain ⟨xs₁, x, xs₂, rfl, h₁, hz, h₂⟩ :=
    forall₂_middle.1 (List.Forall₂.flip (R := flip R) h)
  exact ⟨xs₁, x, xs₂, rfl, h₁.flip, hz, h₂.flip⟩

lemma forall₂_imp_of_mem {S : α → β → Prop} (h : List.Forall₂ R xs zs)
    (himp : ∀ x, ∀ z ∈ zs, R x z → S x z) : List.Forall₂ S xs zs := by
  induction h with
  | nil => exact .nil
  | @cons x z xs zs hxz _ ih =>
    exact .cons (himp x z (by simp) hxz) (ih fun x' z' hz' => himp x' z' (by simp [hz']))

lemma exists_of_mem_right (h : List.Forall₂ R xs zs) : ∀ z ∈ zs, ∃ x ∈ xs, R x z := by
  induction h with
  | nil => simp
  | @cons x z xs zs hxz _ ih =>
    refine List.forall_mem_cons.2 ⟨⟨x, by simp, hxz⟩, fun z' hz' => ?_⟩
    obtain ⟨x', hx', hxz'⟩ := ih z' hz'
    exact ⟨x', by simp [hx'], hxz'⟩

lemma forall₂_trans {γ : Type} {S : β → γ → Prop} {T : α → γ → Prop} {ws : List γ}
    (htrans : ∀ x z w, R x z → S z w → T x w) (h : List.Forall₂ R xs zs)
    (h' : List.Forall₂ S zs ws) : List.Forall₂ T xs ws := by
  induction h generalizing ws with
  | nil =>
    cases h'
    exact .nil
  | cons hxz _ ih =>
    cases h' with
    | cons hzw hrest => exact .cons (htrans _ _ _ hxz hzw) (ih hrest)

lemma zip_append_of_length_le {xs' : List α} (h : zs.length ≤ xs.length) :
    (xs ++ xs').zip zs = xs.zip zs := by
  induction zs generalizing xs with
  | nil => simp
  | cons z zs ih =>
    rcases xs with _ | ⟨x, xs⟩
    · simp at h
    · simp [ih (Nat.le_of_succ_le_succ h)]

lemma exists_middle {i : Nat} (h : i < xs.length) :
    ∃ xs₁ x xs₂, xs = xs₁ ++ x :: xs₂ ∧ xs₁.length = i :=
  ⟨xs.take i, xs[i], xs.drop (i + 1), by simp, by simp [h.le]⟩

lemma modify_middle (f : α → α) : (xs ++ y :: ys).modify xs.length f = xs ++ f y :: ys := by
  induction xs with
  | nil => rfl
  | cons x xs ih => simp [ih]

lemma map_fst_eq {κ : Type} {es : List (κ × α)} {vs : List (κ × β)}
    (h : List.Forall₂ (fun e v => e.1 = v.1 ∧ R e.2 v.2) es vs) :
    es.map Prod.fst = vs.map Prod.fst := by
  induction h with
  | nil => rfl
  | cons hk _ ih => simp [hk.1, ih]

end Lists

section Edit

variable {m : Type → Type} [Source m] [LawfulSource m]

/-- The second input is the first with the part at a path replaced by one that reads as the
value. -/
inductive Edit (v : Json) : List Part → Raw m → Raw m → Prop
  | here {x x' : Raw m} : Reads (any : m Json) x' v → Edit v [] x x'
  | item {part : Part} {path : List Part} {x x' y y' : Raw m} {xs ys : List (Raw m)} :
    Items x (xs ++ y :: ys) → Items x' (xs ++ y' :: ys) → xs.length = part.index →
      Edit v path y y' → Edit v (part :: path) x x'
  | entry {path : List Part} {x x' y y' : Raw m} {es es' : List (String × Raw m)}
    {k : String} {i : Nat} : Entries x (es ++ (k, y) :: es') → Entries x' (es ++ (k, y') :: es') →
      k ∉ es'.map Prod.fst → Edit v path y y' → Edit v (.field k i :: path) x x'

/-- The input has a part at the path. -/
inductive Has : List Part → Raw m → Prop
  | here {x : Raw m} : Has [] x
  | item {part : Part} {path : List Part} {x y : Raw m} {xs ys : List (Raw m)} :
    Items x (xs ++ y :: ys) → xs.length = part.index → Has path y → Has (part :: path) x
  | entry {path : List Part} {x y : Raw m} {es es' : List (String × Raw m)} {k : String}
    {i : Nat} : Entries x (es ++ (k, y) :: es') → k ∉ es'.map Prod.fst → Has path y →
      Has (.field k i :: path) x

/-- Part of what is read is looked up by `look`. A change of the input at the path changes it by
`put`, and where it is `shown` the input has a part at the path. -/
structure Focused {α γ : Type} (shown : γ → Prop) (p : m α) (path : List Part)
    (look : α → Option γ) (put : Json → α → α) : Prop where
  edit {v : Json} {x x' : Raw m} {a : α} {c : γ} : Edit v path x x' → Reads p x a →
    look a = some c → Reads p x' (put v a)
  has {x : Raw m} {a : α} {c : γ} : Reads p x a → look a = some c → shown c → Has path x

/-- A value kept as it stands changes at the same path. -/
lemma Edit.any {v j : Json} {path : List Part} {x x' : Raw m} (h : Edit v path x x')
    (hread : Reads (any : m Json) x j) :
    ∃ j', Reads (Source.any : m Json) x' j' ∧ Edit (m := FromValue) v path j j' := by
  induction h generalizing j with
  | here hv => exact ⟨v, hv, .here rfl⟩
  | item hx hx' hi _ ih =>
    obtain ⟨_, rfl, hall⟩ := (reads_any_items hx).1 hread
    obtain ⟨js, w, js', rfl, hjs, hw, hjs'⟩ := forall₂_middle.1 hall
    obtain ⟨w', hw', hedit⟩ := ih hw
    refine ⟨arr (js ++ w' :: js'), (reads_any_items hx').2 ⟨_, rfl, ?_⟩, ?_⟩
    · exact forall₂_middle.2 ⟨js, w', js', rfl, hjs, hw', hjs'⟩
    · exact .item rfl rfl (hjs.length_eq.symm.trans hi) hedit
  | @entry path x x' y y' es es' k i hx hx' hlast _ ih =>
    obtain ⟨_, rfl, hall⟩ := (reads_any_entries hx).1 hread
    obtain ⟨vs, ⟨k', w⟩, vs', rfl, hvs, ⟨rfl, hw⟩, hvs'⟩ := forall₂_middle.1 hall
    obtain ⟨w', hw', hedit⟩ := ih hw
    refine ⟨obj (vs ++ (k, w') :: vs'), (reads_any_entries hx').2 ⟨_, rfl, ?_⟩, ?_⟩
    · exact forall₂_middle.2 ⟨vs, (k, w'), vs', rfl, hvs, ⟨rfl, hw'⟩, hvs'⟩
    · refine .entry rfl rfl (fun hmem => hlast ?_) hedit
      rw [map_fst_eq hvs']
      exact hmem

/-- A value kept as it stands has the parts of the input. -/
lemma Has.of_any {j : Raw FromValue} {path : List Part} {x : Raw m} (h : Has path j)
    (hread : Reads (any : m Json) x j) : Has path x := by
  induction h generalizing x with
  | here => exact .here
  | @item part path j y xs ys hj hi _ ih =>
    obtain rfl : j = arr (xs ++ y :: ys) := hj
    obtain ⟨zs, hz⟩ := items_of_any hread
    obtain ⟨_, hjs, hall⟩ := (reads_any_items hz).1 hread
    obtain rfl := arr.inj hjs
    obtain ⟨zs₁, z, zs₂, rfl, hzs, hzy, -⟩ := forall₂_middle_right hall
    exact .item hz (hzs.length_eq.trans hi) (ih hzy)
  | @entry path j y es es' k i hj hlast _ ih =>
    obtain rfl : j = obj (es ++ (k, y) :: es') := hj
    obtain ⟨zs, hz⟩ := entries_of_any hread
    obtain ⟨_, hvs, hall⟩ := (reads_any_entries hz).1 hread
    obtain rfl := obj.inj hvs
    obtain ⟨zs₁, ⟨k', z⟩, zs₂, rfl, -, ⟨rfl, hzy⟩, hrest⟩ := forall₂_middle_right hall
    refine .entry hz (fun hmem => hlast ?_) (ih hzy)
    exact map_fst_eq hrest ▸ hmem

lemma Has.of_arr {part : Part} {path : List Part} {x : Raw FromValue} {js : List Json}
    (h : Has (part :: path) x) (hx : x = arr js) :
    ∃ xs y ys, js = xs ++ y :: ys ∧ xs.length = part.index ∧ Has (m := FromValue) path y := by
  cases h with
  | item hitems hi h => exact ⟨_, _, _, arr.inj (hx.symm.trans hitems), hi, h⟩
  | entry hentries => cases hx.symm.trans hentries

lemma Has.of_obj {k : String} {i : Nat} {path : List Part} {x : Raw FromValue}
    {es : List (String × Json)} (h : Has (.field k i :: path) x) (hx : x = obj es) :
    ∃ pre y post, es = pre ++ (k, y) :: post ∧ k ∉ post.map Prod.fst ∧
      Has (m := FromValue) path y := by
  cases h with
  | item hitems => cases hx.symm.trans hitems
  | entry hentries hlast h => exact ⟨_, _, _, obj.inj (hx.symm.trans hentries), hlast, h⟩

variable {α β γ ρ : Type} {path : List Part} {shown : γ → Prop} {look : α → Option γ}
  {put : Json → α → α}

/-- A reader of kept values confines changes as its function on values does. -/
lemma Focused.refine_any {f : FromValue α} (h : Focused shown f path look put) :
    Focused shown (refine any f : m α) path look put where
  edit hedit hread hlook := by
    obtain ⟨j, hj, hf⟩ := reads_refine.1 hread
    obtain ⟨j', hj', hedit'⟩ := hedit.any hj
    exact reads_refine.2 ⟨j', hj', h.edit hedit' hf hlook⟩
  has hread hlook hshown := by
    obtain ⟨j, hj, hf⟩ := reads_refine.1 hread
    exact (h.has hf hlook hshown).of_any hj

lemma Focused.list {p : m α} (hp : Proper p) (h : Focused shown p path look put) (i : Nat) :
    Focused shown (list p) (.item i :: path) (fun as => as[i]?.bind look)
      fun v as => as.modify i (put v) where
  edit {v x x' as c} hedit hread hlook := by
    obtain ⟨a, ha, hlook⟩ := Option.bind_eq_some_iff.1 hlook
    cases hedit with
    | item hx hx' hi hedit =>
      obtain ⟨as₁, b, as₂, rfl, has₁, hb, has₂⟩ := forall₂_middle.1 ((reads_list hp hx).1 hread)
      have hlen : as₁.length = i := has₁.length_eq.symm.trans hi
      obtain rfl : b = a := by simpa [← hlen] using ha
      rw [← hlen, modify_middle, reads_list hp hx']
      exact forall₂_middle.2 ⟨as₁, _, as₂, rfl, has₁, h.edit hedit hb hlook, has₂⟩
  has {x as c} hread hlook hshown := by
    obtain ⟨a, ha, hlook⟩ := Option.bind_eq_some_iff.1 hlook
    obtain ⟨xs, hx⟩ := items_of_list hp hread
    obtain ⟨as₁, b, as₂, rfl, hlen⟩ := exists_middle (List.getElem?_eq_some_iff.1 ha).1
    obtain rfl : b = a := by simpa [← hlen] using ha
    obtain ⟨xs₁, y, xs₂, rfl, hxs, hy, -⟩ := forall₂_middle_right ((reads_list hp hx).1 hread)
    exact .item hx (hxs.length_eq.trans hlen) (h.has hy hlook hshown)

/-- A change inside a list or object leaves a nullable value there. -/
lemma Focused.nullable {p : m α} (hp : Proper p) {part : Part}
    (h : Focused shown p (part :: path) look put) :
    Focused shown (nullable p) (part :: path) (fun o => o.bind look) fun v o => o.map (put v) where
  edit {v x x' o c} hedit hread hlook := by
    obtain ⟨a, rfl, hlook⟩ := Option.bind_eq_some_iff.1 hlook
    have hbrackets : (∃ xs, Items x' xs) ∨ ∃ es, Entries x' es := by
      cases hedit with
      | item _ hx' _ _ => exact .inl ⟨_, hx'⟩
      | entry _ hx' _ _ => exact .inr ⟨_, hx'⟩
    have hread' := h.edit hedit (reads_of_nullable hp hread) hlook
    exact (reads_nullable hp hbrackets).2 ⟨_, rfl, hread'⟩
  has hread hlook hshown := by
    obtain ⟨a, rfl, hlook⟩ := Option.bind_eq_some_iff.1 hlook
    exact h.has (reads_of_nullable hp hread) hlook hshown

/-- Whatever the field reads, it leaves alone what the function sets. -/
def Keeps (set : β → ρ → ρ) (f : Field m ρ) : Prop :=
  ∀ x h, Reads f.put x h → ∀ b r, h (set b r) = set b (h r)

lemma keeps_put {set : β → ρ → ρ} {set' : α → ρ → ρ} {p : m α} {key : String} {required : Bool}
    (h : ∀ c b r, set' c (set b r) = set b (set' c r)) :
    Keeps set (⟨key, required, refine p fun a => .ok (set' a)⟩ : Field m ρ) := by
  intro x g hg
  obtain ⟨c, -, hc⟩ := reads_refine.1 hg
  obtain rfl : set' c = g := by simpa using hc
  exact h c

@[simp] lemma keeps_required {set : β → ρ → ρ} {set' : α → ρ → ρ} {p : m α} {key : String}
    (h : ∀ c b r, set' c (set b r) = set b (set' c r)) : Keeps set (required key p set') :=
  keeps_put h

@[simp] lemma keeps_defaulted {set : β → ρ → ρ} {set' : α → ρ → ρ} {p : m α} {key : String}
    (h : ∀ c b r, set' c (set b r) = set b (set' c r)) : Keeps set (defaulted key p set') :=
  keeps_put h

/-- A field of a record that the other fields leave alone. -/
structure FieldAt (fields : List (Field m ρ)) (key : String) (index : Nat) (value : m β)
    (get : ρ → β) (set : β → ρ → ρ) : Prop where
  field : ∃ required, fields[index]? = some ⟨key, required, refine value fun b => .ok (set b)⟩
  nodup : (fields.map (·.key)).Nodup
  keeps : ∀ f ∈ fields, f.key ≠ key → Keeps set f
  get_set : ∀ b r, get (set b r) = b
  set_set : ∀ b c r, set b (set c r) = set b r

section Record

variable {fields : List (Field m ρ)} {key : String} {index : Nat} {value : m β} {get : ρ → β}
  {set : β → ρ → ρ}

/-- What fields that leave a value alone make of a record, whatever that value is. -/
lemma steps_set {ps : List (Field m ρ × Raw m)} {b : β} {r a : ρ}
    (hkeeps : ∀ p ∈ ps, Keeps set p.1)
    (h : Steps (PutStep Reads) (set b r) ps a) :
    ∃ r', a = set b r' ∧ ∀ b', Steps (PutStep Reads) (set b' r) ps (set b' r') := by
  induction ps generalizing r with
  | nil => exact ⟨r, steps_nil.1 h, fun _ => .nil⟩
  | cons p ps ih =>
    obtain ⟨_, ⟨g, hg, rfl⟩, h⟩ := steps_cons.1 h
    have hcomm := hkeeps p (by simp) _ g hg
    rw [hcomm] at h
    obtain ⟨r', rfl, hsteps⟩ := ih (fun q hq => hkeeps q (by simp [hq])) h
    refine ⟨r', rfl, fun b' => .cons ⟨g, hg, rfl⟩ ?_⟩
    rw [hcomm]
    exact hsteps b'

/-- Putting another value into one field, where the fields put in later leave it alone. -/
lemma FieldAt.steps_middle (h : FieldAt fields key index value get set)
    {ps qs : List (Field m ρ × Raw m)} {f : Field m ρ} {y : Raw m} {blank a : ρ}
    (hf : f.put = refine value fun b => .ok (set b))
    (hqs : ∀ q ∈ qs, q.1 ∈ fields ∧ q.1.key ≠ key)
    (hsteps : Steps (PutStep Reads) blank (ps ++ (f, y) :: qs) a) :
    Reads value y (get a) ∧ ∀ y' b, Reads value y' b →
      Steps (PutStep Reads) blank (ps ++ (f, y') :: qs) (set b a) := by
  obtain ⟨r, hps, hrest⟩ := steps_append.1 hsteps
  obtain ⟨_, ⟨g, hg, rfl⟩, hrest⟩ := steps_cons.1 hrest
  obtain ⟨b, hb, hgb⟩ := reads_refine.1 (hf ▸ hg)
  obtain rfl : set b = g := by simpa using hgb
  obtain ⟨r', rfl, hset⟩ :=
    steps_set (fun q hq => h.keeps q.1 (hqs q hq).1 (hqs q hq).2) hrest
  refine ⟨by rwa [h.get_set], fun y' b' hb' => steps_append.2 ⟨r, hps, .cons ⟨set b', ?_, rfl⟩ ?_⟩⟩
  · rw [hf]
    exact reads_refine.2 ⟨b', hb', rfl⟩
  · rw [h.set_set]
    exact hset b'

/-- Fields other than this one leave its value as it was. -/
lemma FieldAt.get_of_steps (h : FieldAt fields key index value get set)
    {ps : List (Field m ρ × Raw m)} {blank a : ρ} (hblank : set (get blank) blank = blank)
    (hps : ∀ q ∈ ps, q.1 ∈ fields ∧ q.1.key ≠ key) (hsteps : Steps (PutStep Reads) blank ps a) :
    get a = get blank := by
  rw [← hblank] at hsteps
  obtain ⟨r, rfl, -⟩ := steps_set (fun q hq => h.keeps q.1 (hps q hq).1 (hps q hq).2) hsteps
  rw [h.get_set]

lemma FieldAt.split (h : FieldAt fields key index value get set) :
    ∃ fs f gs, fields = fs ++ f :: gs ∧ fs.length = index ∧
      f.put = refine value (fun b => .ok (set b)) ∧ fields.find? (·.key = key) = some f ∧
      (∀ g ∈ fs, g.key ≠ key) ∧ ∀ g ∈ gs, g.key ≠ key := by
  obtain ⟨required, hf⟩ := h.field
  obtain ⟨fs, f, gs, hsplit, rfl⟩ := exists_middle (List.getElem?_eq_some_iff.1 hf).1
  obtain rfl : f = ⟨key, required, refine value fun b => .ok (set b)⟩ := by simpa [hsplit] using hf
  have hnodup := h.nodup
  rw [hsplit, List.map_append, List.map_cons, List.nodup_append, List.nodup_cons] at hnodup
  have hfs (g : Field m ρ) (hg : g ∈ fs) : g.key ≠ key :=
    hnodup.2.2 g.key (List.mem_map_of_mem hg) key (by simp)
  refine ⟨fs, _, gs, hsplit, rfl, rfl, ?_, hfs, fun g hg heq => hnodup.2.1.1 ?_⟩
  · rw [hsplit, List.find?_append, List.find?_eq_none.2 fun g hg => by simpa using hfs g hg,
      Option.none_or, List.find?_cons_of_pos (by simp)]
  · exact List.mem_map.2 ⟨g, hg, heq⟩

lemma known_middle {f : Field m ρ} {es es' : List (String × Raw m)} {y : Raw m}
    (h : fields.find? (·.key = key) = some f) :
    known fields (es ++ (key, y) :: es') = known fields es ++ (f, y) :: known fields es' := by
  rw [known_append, known_cons_of_find h]

variable {title : String} {blank a : ρ} {x y : Raw m}

/-- The item of a field in a list that is read as a record. -/
lemma FieldAt.reads_item (h : FieldAt fields key index value get set)
    (hfields : ∀ f ∈ fields, Proper f.put) {xs ys : List (Raw m)}
    (hx : Items x (xs ++ y :: ys)) (hi : xs.length = index)
    (hread : Reads (record title blank fields) x a) :
    Reads value y (get a) ∧ ∀ x' y' b, Items x' (xs ++ y' :: ys) → Reads value y' b →
      Reads (record title blank fields) x' (set b a) := by
  obtain ⟨fs, f, gs, hsplit, hlen, hput, -, -, hgs⟩ := h.split
  have hzip (z : Raw m) : fields.zip (xs ++ z :: ys) = fs.zip xs ++ (f, z) :: gs.zip ys := by
    rw [hsplit, List.zip_append (hlen.trans hi.symm), List.zip_cons_cons]
  have hlater : ∀ q ∈ gs.zip ys, q.1 ∈ fields ∧ q.1.key ≠ key := by
    rintro ⟨g, z⟩ hq
    have hg := (List.of_mem_zip hq).1
    exact ⟨by simp [hsplit, hg], hgs g hg⟩
  rw [reads_record_items hfields hx, positional_iff, hzip] at hread
  obtain ⟨hget, hset⟩ := h.steps_middle hput hlater hread.1
  refine ⟨hget, fun x' y' b hx' hb => ?_⟩
  rw [reads_record_items hfields hx', positional_iff, hzip]
  exact ⟨hset y' b hb, by simpa using hread.2⟩

/-- The entry of a field in an object that is read as a record. -/
lemma FieldAt.reads_entry (h : FieldAt fields key index value get set)
    (hfields : ∀ f ∈ fields, Proper f.put) {es es' : List (String × Raw m)}
    (hx : Entries x (es ++ (key, y) :: es')) (hread : Reads (record title blank fields) x a) :
    Reads value y (get a) ∧ key ∉ es'.map Prod.fst ∧
      ∀ x' y' b, Entries x' (es ++ (key, y') :: es') → Reads value y' b →
        Reads (record title blank fields) x' (set b a) := by
  obtain ⟨fs, f, gs, -, -, hput, hfind, -, -⟩ := h.split
  have hkey : f.key = key := by simpa using List.find?_some hfind
  rw [reads_record_entries hfields hx, record_entries_iff, known_middle hfind] at hread
  obtain ⟨hsteps, hkeys, hrequired⟩ := hread
  have hfresh : ∀ q ∈ known fields es', q.1.key ≠ key := by
    intro q hq heq
    rw [List.map_append, List.map_cons, List.nodup_append, List.nodup_cons] at hkeys
    exact hkeys.2.1.1 (List.mem_map.2 ⟨q, hq, heq.trans hkey.symm⟩)
  obtain ⟨hget, hset⟩ :=
    h.steps_middle hput (fun q hq => ⟨mem_of_mem_known hq, hfresh q hq⟩) hsteps
  refine ⟨hget, fun hmem => ?_, fun x' y' b hx' hb => ?_⟩
  · obtain ⟨e, he, rfl⟩ := List.mem_map.1 hmem
    exact hfresh (f, e.2) (mem_known he hfind) hkey
  · rw [reads_record_entries hfields hx', record_entries_iff, known_middle hfind]
    exact ⟨hset y' b hb, by simpa using hkeys, by simpa using hrequired⟩

/-- A field is read from a list or from an object, or left as it was. -/
lemma FieldAt.present (h : FieldAt fields key index value get set)
    (hfields : ∀ f ∈ fields, Proper f.put) (hblank : set (get blank) blank = blank)
    (hread : Reads (record title blank fields) x a) :
    (∃ xs y ys, Items x (xs ++ y :: ys) ∧ xs.length = index) ∨
      (∃ es y es', Entries x (es ++ (key, y) :: es')) ∨ get a = get blank := by
  obtain ⟨fs, f, gs, hsplit, hlen, -, -, hfs, -⟩ := h.split
  obtain ⟨xs, hx⟩ | ⟨es, hx⟩ := brackets_of_record hfields hread
  · by_cases hlt : index < xs.length
    · obtain ⟨xs₁, y, xs₂, rfl, hi⟩ := exists_middle hlt
      exact .inl ⟨xs₁, y, xs₂, hx, hi⟩
    · rw [reads_record_items hfields hx, positional_iff] at hread
      refine .inr (.inr (h.get_of_steps hblank (fun q hq => ?_) hread.1))
      -- a list that ends before the field has items for the fields in front of it alone
      rw [hsplit, zip_append_of_length_le (by omega)] at hq
      have hmem := (List.of_mem_zip (show (q.1, q.2) ∈ _ from hq)).1
      exact ⟨by simp [hsplit, hmem], hfs _ hmem⟩
  · by_cases hmem : key ∈ es.map Prod.fst
    · obtain ⟨⟨k, y⟩, he, rfl⟩ := List.mem_map.1 hmem
      obtain ⟨es₁, es₂, rfl⟩ := List.append_of_mem he
      exact .inr (.inl ⟨es₁, y, es₂, hx⟩)
    · rw [reads_record_entries hfields hx, record_entries_iff] at hread
      refine .inr (.inr (h.get_of_steps hblank (fun q hq => ⟨mem_of_mem_known hq, ?_⟩) hread.1))
      rintro rfl
      exact hmem (key_mem_of_mem_known hq)

/-- A record confines changes in a field as the reader of the field does. -/
lemma Focused.record (get : ρ → β) (set : β → ρ → ρ) {look : β → Option γ} {put : Json → β → β}
    (hfields : ∀ f ∈ fields, Proper f.put) (h : FieldAt fields key index value get set)
    (hblank : set (get blank) blank = blank) (hshown : ∀ c, look (get blank) = some c → ¬ shown c)
    (hvalue : Focused shown value path look put) :
    Focused shown (record title blank fields) (.field key index :: path) (fun r => look (get r))
      fun v r => set (put v (get r)) r where
  edit {v x x' a c} hedit hread hlook := by
    cases hedit with
    | item hx hx' hi hedit =>
      obtain ⟨hget, hset⟩ := h.reads_item hfields hx hi hread
      exact hset _ _ _ hx' (hvalue.edit hedit hget hlook)
    | entry hx hx' _ hedit =>
      obtain ⟨hget, -, hset⟩ := h.reads_entry hfields hx hread
      exact hset _ _ _ hx' (hvalue.edit hedit hget hlook)
  has {x a c} hread hlook hc := by
    obtain ⟨xs, y, ys, hx, hi⟩ | ⟨es, y, es', hx⟩ | hsame := h.present hfields hblank hread
    · exact .item hx hi (hvalue.has (h.reads_item hfields hx hi hread).1 hlook hc)
    · obtain ⟨hget, hlast, -⟩ := h.reads_entry hfields hx hread
      exact .entry hx hlast (hvalue.has hget hlook hc)
    · rw [hsame] at hlook
      exact absurd hc (hshown c hlook)

end Record

end Edit

end ZodGraph.Json
