import ZodGraph.Proofs.Json.Grammar
import ZodGraph.Proofs.Json.Replace

/-!
Reading from text follows reading from values: where a text stands for a value, and the reader of
values gives a result for it, the same reader gives that result for the text. The converse fails,
since an entry without a field is passed over in a text and need not be in range there.
-/

namespace ZodGraph.Json

open Source LawfulSource

/-- The reader of text gives what the reader of values gives for the value the text stands for. -/
structure Follows {α : Type} (p : FromText α) (q : FromValue α) : Prop where
  proper : Proper p
  reads {depth : Nat} {t : List Char} {j : Json} {a : α} :
    value depth t = .ok (j, []) → q j = .ok a → p depth t = .ok (a, [])

/-! ### Scalars -/

section Scalars

variable {depth : Nat} {t : List Char} {j : Json} {s : String}

lemma scalar_of_value (h : value depth t = .ok (j, [])) (hj : Atomic j) : Scalar t j := by
  have hlist (js : List Json) : j ≠ arr js := by
    rintro rfl
    exact hj
  have hobject (es : List (String × Json)) : j ≠ obj es := by
    rintro rfl
    exact hj
  rcases depth with _ | d
  · obtain ⟨u, hu, hs⟩ | ⟨b, s, -, ⟨-, hs⟩ | ⟨-, hs⟩⟩ := valueWith_cases h
    · rwa [hu, List.append_nil]
    · simp at hs
    · simp at hs
  · rw [value_succ] at h
    obtain ⟨u, hu, hs⟩ | ⟨b, s, -, ⟨-, hs⟩ | ⟨-, hs⟩⟩ := valueWith_cases h
    · rwa [hu, List.append_nil]
    · obtain ⟨⟨js, r⟩, -, hend⟩ := bind_eq_ok.1 hs
      exact absurd (by simpa using hend : arr js = j ∧ r = []).1.symm (hlist js)
    · obtain ⟨⟨es, r⟩, -, hend⟩ := bind_eq_ok.1 hs
      exact absurd (by simpa using hend : obj es.reverse = j ∧ r = []).1.symm (hobject _)

lemma Scalar.valueWith_eq (h : Scalar t j) (list object : Scan Json) :
    valueWith list object t = .ok (j, []) := by
  have hread := h.reads [] ends_nil list object
  rwa [List.append_nil] at hread

lemma follows_atom {α : Type} {want : Expected} {pick : Json → Option α} {q : FromValue α}
    (hlist : pick (arr []) = none) (hobject : pick (obj []) = none)
    (h : ∀ j a, q j = .ok a → Atomic j ∧ pick j = some a) :
    Follows (FromText.atom want pick) q := by
  refine ⟨FromText.reader_atom hlist hobject, fun {depth t j a} hj ha => ?_⟩
  obtain ⟨hatomic, hpick⟩ := h j a ha
  have hhead : head t = .ok (j, []) := (scalar_of_value hj hatomic).valueWith_eq _ _
  exact FromText.atom_eq_ok.2 ⟨j, hhead, hpick⟩

lemma follows_text : Follows text text := by
  change Follows (FromText.string .text) FromValue.text
  unfold FromText.string
  refine follows_atom rfl rfl fun j a ha => ?_
  cases j with
  | str s => exact ⟨trivial, by simpa [FromValue.text] using ha⟩
  | _ => simp [FromValue.text] at ha

lemma follows_flag : Follows flag flag := by
  change Follows FromText.flag FromValue.flag
  unfold FromText.flag
  refine follows_atom rfl rfl fun j a ha => ?_
  cases j with
  | bool b => exact ⟨trivial, by simpa [FromValue.flag] using ha⟩
  | _ => simp [FromValue.flag] at ha

/-- How the text of a value starts. -/
inductive Front (t : List Char) : Json → Prop
  | null {r : List Char} : skipBlanks t = 'n' :: r → word "ull".toList r = .ok [] → Front t null
  | str {r cs : List Char} : skipBlanks t = '"' :: r → string r = .ok (cs, []) →
    Front t (str (String.ofList cs))
  | other {j : Json} : (∀ r, skipBlanks t ≠ 'n' :: r) → j ≠ .null → (∀ s, j ≠ .str s) → Front t j

lemma front_of_number {negative : Bool} {r : List Char} (h : number negative r = .ok (j, []))
    (ht : ∀ r, skipBlanks t ≠ 'n' :: r) : Front t j := by
  obtain ⟨x, rfl⟩ | ⟨-, -, rfl⟩ := number_sound h
  · exact .other ht (by simp) (by simp)
  · refine .other ht ?_ ?_ <;> unfold wholeNumber <;> split_ifs <;> simp

lemma front_of_valueWith {list object : Scan Json} (h : valueWith list object t = .ok (j, []))
    (hlist : ∀ r, list r = .ok (j, []) → ∃ js, j = arr js)
    (hobject : ∀ r, object r = .ok (j, []) → ∃ es, j = obj es) : Front t j := by
  rw [valueWith] at h
  split at h
  · simp at h
  · next r heq =>
    obtain ⟨rfl, hr⟩ := liftText_word_eq_ok.1 h
    exact .null heq (word_eq_ok_iff.2 hr)
  · next r heq =>
    obtain ⟨rfl, -⟩ := liftText_word_eq_ok.1 h
    exact .other (by simp [heq]) (by simp) (by simp)
  · next r heq =>
    obtain ⟨rfl, -⟩ := liftText_word_eq_ok.1 h
    exact .other (by simp [heq]) (by simp) (by simp)
  · next r heq => exact front_of_number (liftText_eq_ok.1 h) (by simp [heq])
  · next r heq =>
    obtain ⟨cs, hcs, rfl⟩ := liftText_string_eq_ok.1 h
    exact .str heq hcs
  · next r heq =>
    obtain ⟨js, rfl⟩ := hlist r h
    exact .other (by simp [heq]) (by simp) (by simp)
  · next r heq =>
    obtain ⟨es, rfl⟩ := hobject r h
    exact .other (by simp [heq]) (by simp) (by simp)
  · next c r hn _ _ _ _ _ _ heq =>
    have hfront (r' : List Char) : skipBlanks t ≠ 'n' :: r' := by
      rw [heq]
      exact fun hc => hn (List.cons.inj hc).1
    split at h
    · exact front_of_number (liftText_eq_ok.1 h) hfront
    · simp at h

lemma front_of_value (h : value depth t = .ok (j, [])) : Front t j := by
  rcases depth with _ | d
  · exact front_of_valueWith h (by simp) (by simp)
  · rw [value_succ] at h
    refine front_of_valueWith h (fun r hr => ?_) fun r hr => ?_
    · obtain ⟨⟨js, r'⟩, -, hend⟩ := bind_eq_ok.1 hr
      exact ⟨js, (Prod.mk.inj (Except.ok.inj hend)).1.symm⟩
    · obtain ⟨⟨es, r'⟩, -, hend⟩ := bind_eq_ok.1 hr
      exact ⟨es.reverse, (Prod.mk.inj (Except.ok.inj hend)).1.symm⟩

end Scalars

/-! ### Parts -/

section Parts

variable {α β : Type} {p : FromText α} {q : FromValue α}

lemma follows_any : Follows (any : FromText Json) any := by
  refine ⟨proper_any, fun {depth t j a} hj ha => ?_⟩
  obtain rfl : j = a := Except.ok.inj ha
  exact hj

lemma Follows.refine (h : Follows p q) (f : α → Except Fault β) :
    Follows (refine p f) (refine q f) := by
  refine ⟨proper_refine h.proper, fun {depth t j b} hj hb => ?_⟩
  obtain ⟨a, ha, hf⟩ := bind_eq_ok.1 hb
  exact FromText.refine_eq_ok.2 ⟨a, h.reads hj ha, hf⟩

lemma Follows.nullable (h : Follows p q) :
    Follows (FromText.nullable p) (FromValue.nullable q) := by
  refine ⟨proper_nullable h.proper, fun {depth t j o} hj ho => ?_⟩
  have hfront := front_of_value hj
  by_cases hnull : j = null
  · subst hnull
    obtain rfl : none = o := Except.ok.inj ho
    cases hfront with
    | null ht hword =>
      simp only [FromText.nullable, ht, hword]
      rfl
    | other _ hne _ => exact absurd rfl hne
  · have hread : (q j).map some = .ok o := by
      cases j with
      | null => exact absurd rfl hnull
      | _ => exact ho
    obtain ⟨a, rfl, ha⟩ := FromValue.map_some_eq_ok.1 hread
    have hne (r : List Char) : skipBlanks t ≠ 'n' :: r := by
      cases hfront with
      | null => exact absurd rfl hnull
      | str ht => simp [ht]
      | other ht _ _ => exact ht r
    exact (FromText.nullable_eq_ok (h.proper depth) hne).2 ⟨a, rfl, h.reads hj ha⟩

lemma Follows.list (h : Follows p q) : Follows (FromText.list p) (FromValue.list q) := by
  refine ⟨proper_list h.proper, fun {depth t j as} hj has => ?_⟩
  cases j with
  | arr js =>
    have hvalues := FromValue.mapM_eq_ok.1 has
    obtain ⟨xs, hxs⟩ := items_of_any (m := FromText) (x := (depth, t)) hj
    obtain ⟨_, hjs, hitems⟩ := (reads_any_items hxs).1 hj
    obtain rfl := arr.inj hjs
    refine (reads_list (m := FromText) h.proper hxs).2 (forall₂_trans ?_ hitems hvalues)
    exact fun x i a hi ha => h.reads hi ha
  | _ => simp [FromValue.list] at has

end Parts

/-! ### Records -/

section Records

variable {α ρ : Type} {p : FromText α} {q : FromValue α} {fs : List (Field FromText ρ)}
  {gs : List (Field FromValue ρ)}

/-- A field of a record in text follows the field of the same record in values. -/
structure FieldFollows (f : Field FromText ρ) (g : Field FromValue ρ) : Prop where
  key : f.key = g.key
  required : f.required = g.required
  put : Follows f.put g.put

lemma Follows.required (h : Follows p q) (key : String) (set : α → ρ → ρ) :
    FieldFollows (Source.required key p set) (Source.required key q set) :=
  ⟨rfl, rfl, h.refine _⟩

lemma Follows.defaulted (h : Follows p q) (key : String) (set : α → ρ → ρ) :
    FieldFollows (Source.defaulted key p set) (Source.defaulted key q set) :=
  ⟨rfl, rfl, h.refine _⟩

lemma FieldFollows.proper_of_mem (h : List.Forall₂ FieldFollows fs gs) :
    ∀ f ∈ fs, Proper f.put := by
  induction h with
  | nil => simp
  | cons hfg _ ih => exact List.forall_mem_cons.2 ⟨hfg.put.proper, ih⟩

lemma FieldFollows.positional (h : List.Forall₂ FieldFollows fs gs) {r a : ρ}
    {xs : List (Raw FromText)} {js : List Json}
    (hxs : List.Forall₂ (Reads (any : FromText Json)) xs js)
    (hread : Positional (fun p j a => p j = .ok a) gs r js a) :
    Positional (Reads (m := FromText)) fs r xs a := by
  induction hread generalizing fs xs with
  | done hopt =>
    cases hxs
    refine .done fun f hf => ?_
    obtain ⟨g, hg, hfg⟩ := exists_of_mem_right h.flip f hf
    exact hfg.required.trans (hopt g hg)
  | more hset _ ih =>
    cases h with
    | cons hfg hrest =>
      cases hxs with
      | cons hx hxs => exact .more (hfg.put.reads hx hset) (ih hrest hxs)

lemma FieldFollows.step (h : List.Forall₂ FieldFollows fs gs) {state state' : ρ × List String}
    {x : String × Raw FromText} {e : String × Json} (hkey : x.1 = e.1)
    (hx : Reads (any : FromText Json) x.2 e.2)
    (hstep : RecordStep (fun p j a => p j = .ok a) gs state e state') :
    RecordStep (Reads (m := FromText)) fs state x state' := by
  have hfind := find?_alike (fun _ _ hfg => hfg.key) h e.1
  rw [RecordStep, hkey]
  rw [RecordStep] at hstep
  rcases hf : fs.find? (·.key = e.1) with _ | f <;> rcases hg : gs.find? (·.key = e.1) with _ | g
    <;> rw [hf, hg] at hfind
  · simpa only [hf, hg] using hstep
  · cases hfind
  · cases hfind
  · cases hfind with
    | some hfg =>
      simp only [hg] at hstep
      simp only [hf]
      obtain ⟨hnew, set, hset, rfl⟩ := hstep
      exact ⟨hnew, set, hfg.put.reads hx hset, rfl⟩

lemma FieldFollows.steps (h : List.Forall₂ FieldFollows fs gs) {state state' : ρ × List String}
    {xs : List (String × Raw FromText)} {es : List (String × Json)}
    (hxs : List.Forall₂ (fun x e => x.1 = e.1 ∧ Reads (any : FromText Json) x.2 e.2) xs es)
    (hsteps : Steps (RecordStep (fun p j a => p j = .ok a) gs) state es state') :
    Steps (RecordStep (Reads (m := FromText)) fs) state xs state' := by
  induction hxs generalizing state with
  | nil =>
    cases hsteps
    exact .nil
  | cons hx _ ih =>
    cases hsteps with
    | cons hstep hrest => exact .cons (FieldFollows.step h hx.1 hx.2 hstep) (ih hrest)

lemma FieldFollows.record (h : List.Forall₂ FieldFollows fs gs) (title : String) (blank : ρ) :
    Follows (FromText.record title blank fs) (FromValue.record title blank gs) := by
  have hproper := FieldFollows.proper_of_mem h
  refine ⟨proper_record hproper, fun {depth t j a} hj ha => ?_⟩
  cases j with
  | arr js =>
    obtain ⟨xs, hxs⟩ := items_of_any (m := FromText) (x := (depth, t)) hj
    obtain ⟨_, hjs, hitems⟩ := (reads_any_items hxs).1 hj
    obtain rfl := arr.inj hjs
    have hfields := FromValue.positional_eq_ok.1 ha
    exact (reads_record_items hproper hxs).2 (FieldFollows.positional h hitems hfields)
  | obj es =>
    obtain ⟨xs, hxs⟩ := entries_of_any (m := FromText) (x := (depth, t)) hj
    obtain ⟨_, hes, hentries⟩ := (reads_any_entries hxs).1 hj
    obtain rfl := obj.inj hes
    obtain ⟨seen, hsteps, hmissing⟩ :=
      (reads_record_entries (m := FromValue) (x := (obj es : Json)) (fun _ _ => trivial) rfl).1 ha
    refine (reads_record_entries hproper hxs).2 ⟨seen, FieldFollows.steps h hentries hsteps, ?_⟩
    rw [firstMissing_alike (fun _ _ hfg => ⟨hfg.key, hfg.required⟩) h]
    exact hmissing
  | _ => simp [FromValue.record] at ha

end Records

/-! ### Choices -/

section Choices

variable {α : Type} {options : List (String × α)} {a : α}

lemma chosen_append {q r : List Char} {k : String} (hq : Named q k)
    (hpick : pick options k = .ok a) : FromText.chosen options (q ++ r) = .ok (a, r) := by
  obtain ⟨s, hs, rfl⟩ := hq
  simp only [FromText.chosen, hs.reads r, liftText_ok, ok_bind, hpick, FromText.liftFault]
  rfl

lemma chosenKey_append {b q r : List Char} {k : String} (hb : Blanks b) (hq : Named q k)
    (hpick : pick options k = .ok a) :
    FromText.chosenKey options (b ++ '"' :: (q ++ r)) = .ok (a, r) := by
  rw [FromText.chosenKey, skipBlanks_append_cons hb (by decide)]
  exact chosen_append hq hpick

lemma unit_of_null {d : Nat} {u : List Char} (h : value d u = .ok (null, [])) :
    Piece (FromText.unit d) u () := by
  have hhead : head u = .ok (null, []) := (scalar_of_value h trivial).valueWith_eq _ _
  exact (FromText.reader_unit d).reads_iff.1 (FromText.atom_eq_ok.2 ⟨null, hhead, rfl⟩)

/-- A name may stand as the only key of an object that holds `null`. -/
lemma choice_object {d : Nat} {b s u : List Char} {k : String} (hb : Blanks b)
    (hs : EntriesText Named true s [(k, u)]) (hu : value d u = .ok (null, []))
    (hpick : pick options k = .ok a) :
    FromText.choice options (d + 1) (b ++ '{' :: s) = .ok (a, []) := by
  cases hs with
  | more hp hb₁ hq hb₂ _ hend =>
    cases hp with
    | first =>
      have hends := hend.ends (r := [])
      cases hend with
      | done hb₃ =>
        have hunit := (unit_of_null hu).reads _ hends
        simp only [List.append_nil] at hunit
        rw [FromText.choice, skipBlanks_append_cons hb (by decide), List.nil_append]
        simp only [FromText.nested, chosenKey_append hb₁ hq hpick, ok_bind, colon_append hb₂,
          liftText_ok, hunit, skipBlanks_append_cons hb₃ (show isBlank '}' = false by decide),
          pure_eq_ok]

lemma follows_choice : Follows (FromText.choice options) (FromValue.choice options) := by
  refine ⟨proper_choice options, fun {depth t j a} hj ha => ?_⟩
  cases j with
  | str s =>
    cases front_of_value hj with
    | @str r cs ht hcs =>
      have hpick : pick options (String.ofList cs) = .ok a := ha
      rw [FromText.choice]
      simp only [ht, FromText.chosen, hcs, liftText_ok, ok_bind, hpick, FromText.liftFault]
      rfl
    | other _ _ hne => exact absurd rfl (hne s)
  | obj es =>
    obtain ⟨k, rfl, hpick⟩ := FromValue.choice_obj_eq_ok ha
    obtain ⟨xs, hxs⟩ := FromText.objectText_of_value hj
    cases hxs with
    | @intro d b s ts hb hs =>
      obtain ⟨_, hes, hentries⟩ := (FromText.value_object_whole hb hs).1 hj
      obtain rfl := obj.inj hes
      cases hentries with
      | @cons e _ _ _ he hrest =>
        obtain ⟨k', u⟩ := e
        obtain ⟨rfl, hu⟩ := he
        cases hrest
        exact choice_object hb hs hu hpick
  | _ => simp [FromValue.choice] at ha

end Choices

/-- A text is read as the value it stands for is, if it keeps the limit on open brackets. -/
theorem Follows.run {α : Type} {p : FromText α} {q : FromValue α} {text : String} {j : Json}
    {a : α} (h : Follows p q) (htext : Spells text j) (hdepth : j.depth ≤ FromText.depthLimit)
    (ha : q j = .ok a) : FromText.run p text = .ok a := by
  obtain ⟨t, b, ht, hj, hb⟩ := htext
  have hvalue := value_eq_ok_iff.2 ⟨hj, hdepth⟩
  have hread := h.reads hvalue ha
  exact (run_eq_ok h.proper).2 ⟨t, b, ht, hb, (h.proper _).reads_iff.1 hread⟩

end ZodGraph.Json
