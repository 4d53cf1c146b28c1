import ZodGraph.Json.Source
import ZodGraph.Proofs.Json.Layout

/-!
What reading a record comes to. In an object the entries that belong to a field are put into the
blank record one after the other, no field twice and every required field once; in a list the
fields take the items in order.
-/

namespace ZodGraph.Json

section Steps

variable {σ ε : Type} {step : σ → ε → σ → Prop} {a c : σ} {es es' : List ε}

lemma steps_nil : Steps step a [] c ↔ c = a := by
  constructor
  · rintro ⟨⟩
    rfl
  · rintro rfl
    exact .nil

lemma steps_cons {e : ε} : Steps step a (e :: es) c ↔ ∃ b, step a e b ∧ Steps step b es c := by
  constructor
  · rintro ⟨⟩
    exact ⟨_, ‹_›, ‹_›⟩
  · rintro ⟨b, hstep, hsteps⟩
    exact .cons hstep hsteps

lemma steps_append : Steps step a (es ++ es') c ↔ ∃ b, Steps step a es b ∧ Steps step b es' c := by
  induction es generalizing a with
  | nil => simp [steps_nil]
  | cons e es ih =>
    simp only [List.cons_append, steps_cons, ih]
    tauto

lemma steps_map {ε' : Type} {g : ε' → ε} {es : List ε'} :
    Steps step a (es.map g) c ↔ Steps (fun a e b => step a (g e) b) a es c := by
  induction es generalizing a with
  | nil => simp [steps_nil]
  | cons e es ih => simp only [List.map_cons, steps_cons, ih]

end Steps

section Record

variable {m : Type → Type} {ρ ι : Type}

/-- One field changes a record by what its input reads as. -/
def PutStep (R : m (ρ → ρ) → ι → (ρ → ρ) → Prop) (r : ρ) (e : Field m ρ × ι) (r' : ρ) : Prop :=
  ∃ set, R e.1.put e.2 set ∧ r' = set r

/-- One entry of an object read as a record: a field not seen before, or no field. -/
def RecordStep (R : m (ρ → ρ) → ι → (ρ → ρ) → Prop) (fields : List (Field m ρ))
    (state : ρ × List String) (e : String × ι) (state' : ρ × List String) : Prop :=
  match fields.find? (·.key = e.1) with
  | none => state' = state
  | some f => e.1 ∉ state.2 ∧ ∃ set, R f.put e.2 set ∧ state' = (set state.1, e.1 :: state.2)

/-- The items of a list read as a record; fields that are not required may be left out at the
end. -/
inductive Positional (R : m (ρ → ρ) → ι → (ρ → ρ) → Prop) :
    List (Field m ρ) → ρ → List ι → ρ → Prop
  | done {fs : List (Field m ρ)} {r : ρ} : (∀ f ∈ fs, f.required = false) → Positional R fs r [] r
  | more {f : Field m ρ} {fs : List (Field m ρ)} {r r' : ρ} {x : ι} {xs : List ι} {set : ρ → ρ} :
    R f.put x set → Positional R fs (set r) xs r' → Positional R (f :: fs) r (x :: xs) r'

/-- The entries that belong to a field, in order. -/
def known (fields : List (Field m ρ)) (es : List (String × ι)) : List (Field m ρ × ι) :=
  es.filterMap fun e => (fields.find? (·.key = e.1)).map (·, e.2)

variable {R : m (ρ → ρ) → ι → (ρ → ρ) → Prop} {fields : List (Field m ρ)} {r r' : ρ}
  {es : List (String × ι)} {xs : List ι}

lemma known_append (es es' : List (String × ι)) :
    known fields (es ++ es') = known fields es ++ known fields es' := by
  simp [known]

lemma known_cons_of_find {f : Field m ρ} {e : String × ι}
    (h : fields.find? (·.key = e.1) = some f) :
    known fields (e :: es) = (f, e.2) :: known fields es := by
  simp [known, h]

lemma known_cons_of_none {e : String × ι} (h : fields.find? (·.key = e.1) = none) :
    known fields (e :: es) = known fields es := by
  simp only [known, List.filterMap_cons, h, Option.map_none]

lemma mem_of_mem_known {p : Field m ρ × ι} (h : p ∈ known fields es) : p.1 ∈ fields := by
  obtain ⟨e, _, he⟩ := List.mem_filterMap.1 h
  obtain ⟨f, hf, rfl⟩ := Option.map_eq_some_iff.1 he
  exact List.mem_of_find?_eq_some hf

lemma mem_known {f : Field m ρ} {e : String × ι} (he : e ∈ es)
    (hf : fields.find? (·.key = e.1) = some f) : (f, e.2) ∈ known fields es :=
  List.mem_filterMap.2 ⟨e, he, Option.map_eq_some_iff.2 ⟨f, hf, rfl⟩⟩

lemma key_mem_of_mem_known {p : Field m ρ × ι} (h : p ∈ known fields es) :
    p.1.key ∈ es.map Prod.fst := by
  obtain ⟨e, he, hp⟩ := List.mem_filterMap.1 h
  obtain ⟨f, hf, rfl⟩ := Option.map_eq_some_iff.1 hp
  have hkey : f.key = e.1 := by simpa using List.find?_some hf
  exact List.mem_map.2 ⟨e, he, hkey.symm⟩

lemma steps_record_iff {seen seen' : List String} :
    Steps (RecordStep R fields) (r, seen) es (r', seen') ↔
      Steps (PutStep R) r (known fields es) r' ∧
      seen' = ((known fields es).map (·.1.key)).reverse ++ seen ∧
      ((known fields es).map (·.1.key)).Nodup ∧
      ∀ k ∈ (known fields es).map (·.1.key), k ∉ seen := by
  induction es generalizing r seen with
  | nil => simp [known, steps_nil]
  | cons e es ih =>
    rw [steps_cons]
    rcases hfind : fields.find? (·.key = e.1) with _ | f
    · simp only [RecordStep, hfind, exists_eq_left, known_cons_of_none hfind]
      exact ih
    · have hkey : f.key = e.1 := by simpa using List.find?_some hfind
      rw [known_cons_of_find hfind]
      constructor
      · rintro ⟨state, hstep, hsteps⟩
        rw [RecordStep, hfind] at hstep
        obtain ⟨hnew, set, hset, rfl⟩ := hstep
        obtain ⟨hputs, hseen, hnodup, hfresh⟩ := ih.1 hsteps
        refine ⟨.cons ⟨set, hset, rfl⟩ hputs, by simp [hseen, hkey], ?_, ?_⟩
        · refine List.nodup_cons.2 ⟨fun hmem => ?_, hnodup⟩
          exact hfresh _ hmem (by simp [hkey])
        · intro k hk
          rcases List.mem_cons.1 hk with rfl | hk
          · simpa [hkey] using hnew
          · exact fun hmem => hfresh k hk (by simp [hmem])
      · rintro ⟨hputs, hseen, hnodup, hfresh⟩
        obtain ⟨r₁, ⟨set, hset, rfl⟩, hputs⟩ := steps_cons.1 hputs
        rw [List.map_cons] at hnodup hfresh
        obtain ⟨hne, hnodup⟩ := List.nodup_cons.1 hnodup
        refine ⟨(set r, e.1 :: seen), ?_, ih.2 ⟨hputs, by simp [hseen, hkey], hnodup, ?_⟩⟩
        · rw [RecordStep, hfind]
          exact ⟨by simpa [hkey] using hfresh f.key (by simp), set, hset, rfl⟩
        · intro k hk hmem
          rcases List.mem_cons.1 hmem with rfl | hmem
          · exact hne (by simpa [hkey] using hk)
          · exact hfresh k (List.mem_cons_of_mem _ hk) hmem

lemma firstMissing_eq_none {seen : List String} :
    firstMissing fields seen = none ↔ ∀ f ∈ fields, f.required → f.key ∈ seen := by
  simp [firstMissing]

section Alike

variable {m' : Type → Type} {P : Field m ρ → Field m' ρ → Prop} {fields' : List (Field m' ρ)}

/-- Fields that are alike one by one are found alike. -/
lemma find?_alike (hkey : ∀ f f', P f f' → f.key = f'.key) (h : List.Forall₂ P fields fields')
    (key : String) :
    Option.Rel P (fields.find? (·.key = key)) (fields'.find? (·.key = key)) := by
  induction h with
  | nil => exact .none
  | @cons f f' fs fs' hff _ ih =>
    have heq := hkey f f' hff
    by_cases hf : f.key = key
    · rw [List.find?_cons_of_pos (by simpa using hf),
        List.find?_cons_of_pos (by simpa [← heq] using hf)]
      exact .some hff
    · rw [List.find?_cons_of_neg (by simpa using hf),
        List.find?_cons_of_neg (by simpa [← heq] using hf)]
      exact ih

lemma firstMissing_alike
    (hfield : ∀ f f', P f f' → f.key = f'.key ∧ f.required = f'.required)
    (h : List.Forall₂ P fields fields') (seen : List String) :
    firstMissing fields seen = firstMissing fields' seen := by
  unfold firstMissing
  induction h with
  | nil => rfl
  | @cons f f' fs fs' hff _ ih =>
    obtain ⟨hkey, hrequired⟩ := hfield f f' hff
    simp only [List.find?_cons, hkey, hrequired]
    split
    · simp [hkey]
    · exact ih

end Alike

lemma finish_eq_ok {seen : List String} {acc a : ρ} :
    finish fields seen acc = .ok a ↔ acc = a ∧ firstMissing fields seen = none := by
  rw [finish]
  rcases firstMissing fields seen with _ | k <;> simp

lemma finishShort_eq_ok {title : String} {total index : Nat} {acc a : ρ} :
    finishShort title total index fields acc = .ok a ↔
      acc = a ∧ ∀ f ∈ fields, f.required = false := by
  rw [finishShort]
  rcases hidx : fields.findIdx? (·.required) with _ | i
  · simp only [hidx, Except.ok.injEq, iff_self_and]
    exact fun _ => List.findIdx?_eq_none_iff.1 hidx
  · obtain ⟨hlt, hreq, _⟩ := List.findIdx?_eq_some_iff_getElem.1 hidx
    simp only [hidx, reduceCtorEq, false_iff, not_and, not_forall]
    exact fun _ => ⟨fields[i], List.getElem_mem hlt, by simp [hreq]⟩

/-- An object is read as a record by putting in what belongs to a field. -/
lemma record_entries_iff {blank : ρ} :
    (∃ seen, Steps (RecordStep R fields) (blank, []) es (r, seen) ∧
        firstMissing fields seen = none) ↔
      Steps (PutStep R) blank (known fields es) r ∧ ((known fields es).map (·.1.key)).Nodup ∧
      ∀ f ∈ fields, f.required → f.key ∈ (known fields es).map (·.1.key) := by
  simp only [steps_record_iff, firstMissing_eq_none]
  constructor
  · rintro ⟨seen, ⟨hputs, rfl, hnodup, _⟩, hall⟩
    exact ⟨hputs, hnodup, fun f hf hreq => by simpa using hall f hf hreq⟩
  · rintro ⟨hputs, hnodup, hall⟩
    exact ⟨_, ⟨hputs, rfl, hnodup, by simp⟩, fun f hf hreq => by simpa using hall f hf hreq⟩

/-- A list is read as a record by putting its items into the fields in order. -/
lemma positional_iff :
    Positional R fields r xs r' ↔ Steps (PutStep R) r (fields.zip xs) r' ∧
      xs.length ≤ fields.length ∧ ∀ f ∈ fields.drop xs.length, f.required = false := by
  induction xs generalizing fields r with
  | nil =>
    simp only [List.zip_nil_right, steps_nil, List.length_nil, Nat.zero_le, List.drop_zero,
      true_and]
    constructor
    · rintro ⟨⟩
      exact ⟨rfl, ‹_›⟩
    · rintro ⟨rfl, hall⟩
      exact .done hall
  | cons x xs ih =>
    rcases fields with _ | ⟨f, fs⟩
    · simp only [List.length_cons, List.length_nil, Nat.not_add_one_le_zero, false_and, and_false,
        iff_false]
      rintro ⟨⟩
    · simp only [List.zip_cons_cons, steps_cons, List.length_cons, Nat.add_le_add_iff_right,
        List.drop_succ_cons]
      constructor
      · rintro ⟨⟩
        rename_i set hset hrest
        obtain ⟨hputs, hrest⟩ := ih.1 hrest
        exact ⟨⟨set r, ⟨set, hset, rfl⟩, hputs⟩, hrest⟩
      · rintro ⟨⟨_, ⟨set, hset, rfl⟩, hputs⟩, hrest⟩
        exact .more hset (ih.2 ⟨hputs, hrest⟩)

lemma positional_map {ι' : Type} {g : ι' → ι} {xs : List ι'} :
    Positional R fields r (xs.map g) r' ↔
      Positional (fun p x a => R p (g x) a) fields r xs r' := by
  simp only [positional_iff, List.zip_map_right, steps_map, List.length_map]
  rfl

end Record

end ZodGraph.Json
