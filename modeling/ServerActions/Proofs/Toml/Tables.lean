import ServerActions.Proofs.Toml.Grammar

namespace ServerActions.Toml

theorem lookup_append (name : String) (fields more : List (Key × Node)) :
    lookup name (fields ++ more) = (lookup name fields).or (lookup name more) := by
  induction fields with
  | nil => rfl
  | cons f fields ih =>
    rw [List.cons_append, lookup, lookup]
    split
    · rfl
    · exact ih

theorem lookup_append_single {name : String} {k : Key} (h : name ≠ k.name) (v : Node)
    (fields : List (Key × Node)) : lookup name (fields ++ [(k, v)]) = lookup name fields := by
  rw [lookup_append, lookup, if_neg (Ne.symm h), lookup, Option.or_none]

theorem lookup_append_self {k : Key} {fields : List (Key × Node)}
    (h : lookup k.name fields = none) (v : Node) :
    lookup k.name (fields ++ [(k, v)]) = some v := by
  rw [lookup_append, h, Option.none_or, lookup, if_pos rfl]

theorem lookup_update_self {name : String} {fields : List (Key × Node)}
    (h : lookup name fields ≠ none) (v : Node) : lookup name (update name v fields) = some v := by
  induction fields with
  | nil => exact absurd rfl h
  | cons f fields ih =>
    rw [lookup] at h
    rw [update]
    split at h
    next hf => rw [if_pos hf, lookup, if_pos hf]
    next hf => rw [if_neg hf, lookup, if_neg hf, ih h]

theorem lookup_update_other {name other : String} (h : name ≠ other) (v : Node)
    (fields : List (Key × Node)) : lookup name (update other v fields) = lookup name fields := by
  induction fields with
  | nil => rfl
  | cons f fields ih =>
    rw [update]
    split
    next hf => rw [lookup, lookup, if_neg (hf ▸ Ne.symm h), if_neg (hf ▸ Ne.symm h)]
    next => rw [lookup, lookup, ih]

theorem mem_update {name : String} {v : Node} {fields : List (Key × Node)} {f : Key × Node}
    (h : f ∈ update name v fields) : f ∈ fields ∨ f.1.name = name := by
  induction fields with
  | nil => cases h
  | cons g fields ih =>
    rw [update] at h
    split at h
    next hg =>
      rcases List.mem_cons.mp h with rfl | h
      · exact .inr hg
      · exact .inl (List.mem_cons_of_mem _ h)
    next =>
      rcases List.mem_cons.mp h with rfl | h
      · exact .inl List.mem_cons_self
      · exact (ih h).imp_left (List.mem_cons_of_mem _)

theorem mem_update_of_mem {name : String} {fields : List (Key × Node)} {f : Key × Node}
    (h : f ∈ fields) (hname : f.1.name ≠ name) (v : Node) : f ∈ update name v fields := by
  induction fields with
  | nil => cases h
  | cons g fields ih =>
    rw [update]
    split
    next hg =>
      rcases List.mem_cons.mp h with rfl | h
      · exact absurd hg hname
      · exact List.mem_cons_of_mem _ h
    next =>
      rcases List.mem_cons.mp h with rfl | h
      · exact List.mem_cons_self
      · exact List.mem_cons_of_mem _ (ih h)

def Free : List String → List (Key × Node) → Prop
  | [], _ => False
  | [name], fields => lookup name fields = none
  | name :: next :: path, fields => ∀ v, lookup name fields = some v →
      ∃ span own, v = .table span .dotted own ∧ Free (next :: path) own

theorem free_nil {path : List String} (h : path ≠ []) : Free path [] := by
  match path, h with
  | [_], _ => rfl
  | _ :: _ :: _, _ =>
    intro v hv
    cases hv

theorem Free.congr {name : String} {path : List String} {fields fields' : List (Key × Node)}
    (h : Free (name :: path) fields) (he : lookup name fields' = lookup name fields) :
    Free (name :: path) fields' := by
  cases path with
  | nil => exact he.trans h
  | cons next path =>
    intro v hv
    exact h v (he ▸ hv)

def names (path : List Key) : List String :=
  path.map Key.name

theorem names_eq_single {path : List Key} {name : String} (h : names path = [name]) :
    ∃ k, path = [k] ∧ k.name = name := by
  match path, h with
  | [k], h => exact ⟨k, rfl, by simpa [names] using h⟩

theorem names_eq_pair {path : List Key} {name next : String} (h : names path = [name, next]) :
    ∃ k l, path = [k, l] ∧ k.name = name ∧ l.name = next := by
  match path, h with
  | [k, l], h =>
    simp only [names, List.map_cons, List.map_nil, List.cons.injEq, and_true] at h
    exact ⟨k, l, rfl, h.1, h.2⟩

theorem diverge_singles {name other : String} (h : name ≠ other) : Diverge [name] [other] := by
  constructor
  · intro hp
    exact h (List.cons_prefix_cons.mp hp).1
  · intro hp
    exact h (List.cons_prefix_cons.mp hp).1.symm

theorem diverge_single {name other : String} {path : List String}
    (h : Diverge (name :: path) [other]) : name ≠ other := by
  rintro rfl
  exact h.2 (List.prefix_append [name] path)

theorem Diverge.symm {p q : List String} (h : Diverge p q) : Diverge q p :=
  ⟨h.2, h.1⟩

theorem Diverge.tail {name : String} {p q : List String} (h : Diverge (name :: p) (name :: q)) :
    Diverge p q :=
  ⟨fun hp => h.1 (List.cons_prefix_cons.mpr ⟨rfl, hp⟩),
    fun hq => h.2 (List.cons_prefix_cons.mpr ⟨rfl, hq⟩)⟩

theorem Diverge.ne_nil {p q : List String} (h : Diverge p q) : p ≠ [] := by
  rintro rfl
  exact h.1 (List.nil_prefix)

/-- What a field set on a path does to the fields of a table: only fields with the first name of the
path change, and the paths that diverge from it stay free. -/
structure Sets (path : List Key) (value : Node) (fields fields' : List (Key × Node)) : Prop where
  free : ∀ p, Diverge p (names path) → Free p fields → Free p fields'
  kept : ∀ f ∈ fields, (∀ k ∈ path.head?, f.1.name ≠ k.name) → f ∈ fields'
  added : ∀ f ∈ fields', f ∈ fields ∨ (∃ k ∈ path.head?, f.1.name = k.name) ∧
    (path.length = 1 → f.2 = value)
  single : ∀ k, path = [k] → (k, value) ∈ fields'

theorem sets_single {k : Key} {fields : List (Key × Node)} (value : Node) :
    Sets [k] value fields (fields ++ [(k, value)]) where
  free p hp hf := by
    cases p with
    | nil => exact hf
    | cons name p => exact hf.congr (lookup_append_single (diverge_single hp) value fields)
  kept f hf _ := List.mem_append_left _ hf
  added f hf := by
    rcases List.mem_append.mp hf with hf | hf
    · exact .inl hf
    · obtain rfl := List.mem_singleton.mp hf
      exact .inr ⟨⟨k, rfl, rfl⟩, fun _ => rfl⟩
  single k' hk := by
    obtain rfl := List.singleton_inj.mp hk
    exact List.mem_append_right _ List.mem_cons_self

section Child

variable {k : Key} {path : List Key} {value : Node} {fields own own' : List (Key × Node)}

theorem free_of_child {fields' : List (Key × Node)} {span : Option Span}
    (hself : lookup k.name fields' = some (.table span .dotted own'))
    (hother : ∀ name, name ≠ k.name → lookup name fields' = lookup name fields)
    (hown : ∀ p, Free (k.name :: p) fields → p ≠ [] → Free p own)
    (h : Sets path value own own') (p : List String) (hp : Diverge p (names (k :: path)))
    (hf : Free p fields) : Free p fields' := by
  cases p with
  | nil => exact hf
  | cons name p =>
    by_cases hname : name = k.name
    · -- beyond a common first name the paths still diverge
      subst hname
      have htail : Diverge p (names path) := hp.tail
      match p, htail.ne_nil with
      | next :: p, hne =>
        intro v hv
        rw [hself] at hv
        obtain rfl := Option.some.inj hv
        exact ⟨span, own', rfl, h.free _ htail (hown _ hf hne)⟩
    · exact hf.congr (hother name hname)

theorem sets_new (hpath : path ≠ []) (hk : lookup k.name fields = none)
    (h : Sets path value [] own') :
    Sets (k :: path) value fields (fields ++ [(k, .table none .dotted own')]) where
  free := by
    refine free_of_child (lookup_append_self hk _) (fun name hname =>
      lookup_append_single hname _ _) (fun p _ hp => free_nil hp) h
  kept f hf _ := List.mem_append_left _ hf
  added f hf := by
    rcases List.mem_append.mp hf with hf | hf
    · exact .inl hf
    · obtain rfl := List.mem_singleton.mp hf
      exact .inr ⟨⟨k, rfl, rfl⟩, fun hl => absurd (by simpa using hl) hpath⟩
  single k' hk' := absurd (List.cons.inj hk').2 hpath

theorem sets_below {span : Option Span} (hpath : path ≠ [])
    (hk : lookup k.name fields = some (.table span .dotted own)) (h : Sets path value own own') :
    Sets (k :: path) value fields (update k.name (.table span .dotted own') fields) where
  free := by
    refine free_of_child (lookup_update_self (by simp [hk]) _) (fun name hname =>
      lookup_update_other hname _ _) (fun p hf hp => ?_) h
    match p, hp with
    | next :: p, _ =>
      obtain ⟨span', own', he, hfree⟩ := hf _ hk
      obtain ⟨-, -, rfl⟩ := Node.table.inj he
      exact hfree
  kept f hf hname := mem_update_of_mem hf (hname k rfl) _
  added f hf :=
    (mem_update hf).imp_right fun hname =>
      ⟨⟨k, rfl, hname⟩, fun hl => absurd (by simpa using hl) hpath⟩
  single k' hk' := absurd (List.cons.inj hk').2 hpath

end Child

theorem descend_free {dotted : Bool} {k : Key} {value : Node} {ks : List Key} {span : Option Span}
    {form : Form} {fields : List (Key × Node)} (hform : dotted = (!ks.isEmpty || form == .dotted))
    (h : Free (names (ks ++ [k])) fields) :
    ∃ fields', descend .dotted (addField dotted k value) ks (.table span form fields) =
        some (.table span form fields') ∧ Sets (ks ++ [k]) value fields fields' := by
  induction ks generalizing span form fields with
  | nil =>
    refine ⟨_, ?_, sets_single value⟩
    have hnone : lookup k.name fields = none := h
    simp [descend, addField, hform, hnone]
  | cons k₀ ks ih =>
    -- below the first key, where only dotted keys have made tables, the flag has to be set
    have hdotted : dotted = true := by simpa using hform
    have hne : ks ++ [k] ≠ [] := by simp
    have hchild : dotted = (!ks.isEmpty || Form.dotted == .dotted) := by simp [hdotted]
    cases hl : lookup k₀.name fields with
    | none =>
      obtain ⟨own', he, hs⟩ := @ih none .dotted [] hchild (free_nil (by simp [names]))
      exact ⟨_, by simp [descend, hl, he], sets_new hne hl hs⟩
    | some v =>
      have hfree : ∃ span own, v = .table span .dotted own ∧ Free (names (ks ++ [k])) own := by
        match hp : names (ks ++ [k]), hne with
        | [], _ => simp [names] at hp
        | next :: path, _ =>
          rw [List.cons_append, names, List.map_cons, ← names, hp] at h
          exact h v hl
      obtain ⟨span', own, rfl, hfree⟩ := hfree
      obtain ⟨own', he, hs⟩ := @ih span' .dotted own hchild hfree
      exact ⟨_, by simp [descend, hl, he, leadsThrough], sets_below hne hl hs⟩

theorem assign_free {path : List Key} {form : Form} {fields : List (Key × Node)} (value : Node)
    (span : Option Span) (hform : form ≠ .dotted) (h : Free (names path) fields) :
    ∃ fields', assign (.table span form fields) path value = some (.table span form fields') ∧
      Sets path value fields fields' := by
  rcases List.eq_nil_or_concat path with rfl | ⟨ks, k, rfl⟩
  · exact h.elim
  · rw [List.concat_eq_append] at h ⊢
    have hdotted : (!ks.isEmpty) = (!ks.isEmpty || form == .dotted) := by simp [hform]
    obtain ⟨fields', he, hs⟩ := @descend_free _ k value ks span form fields hdotted h
    refine ⟨fields', ?_, hs⟩
    have hl : ((ks ++ [k]).length != 1) = !ks.isEmpty := by cases ks <;> simp
    rw [assign, hl]
    simpa using he

structure Filled (pairs : Assignments) (fields : List (Key × Node)) : Prop where
  free : ∀ p, p ≠ [] → (∀ a ∈ pairs, Diverge p (names a.1)) → Free p fields
  sound : ∀ f ∈ fields, ∃ a ∈ pairs, (∃ k ∈ a.1.head?, f.1.name = k.name) ∧
    (a.1.length = 1 → f.2 = a.2)
  complete : ∀ k v, ([k], v) ∈ pairs → (k, v) ∈ fields

theorem filled_nil : Filled [] [] where
  free _ hp _ := free_nil hp
  sound _ hf := by cases hf
  complete _ _ h := by cases h

theorem Filled.concat {pairs : Assignments} {path : List Key} {value : Node}
    {fields fields' : List (Key × Node)} (h : Filled pairs fields)
    (hapart : ∀ a ∈ pairs, Diverge (names a.1) (names path))
    (hs : Sets path value fields fields') : Filled (pairs ++ [(path, value)]) fields' where
  free p hp hall := by
    apply hs.free p
    · exact hall (path, value) (by simp)
    · exact h.free p hp fun a ha => hall a (List.mem_append_left _ ha)
  sound f hf := by
    rcases hs.added f hf with hf | hf
    · obtain ⟨a, ha, hfa⟩ := h.sound f hf
      exact ⟨a, List.mem_append_left _ ha, hfa⟩
    · exact ⟨(path, value), by simp, hf⟩
  complete k v hk := by
    rcases List.mem_append.mp hk with hmem | hk
    · refine hs.kept _ (h.complete k v hmem) fun k' hk' he => ?_
      obtain ⟨rest, rfl⟩ : ∃ rest, path = k' :: rest := by
        cases path with
        | nil => cases hk'
        | cons c rest =>
          obtain rfl : c = k' := by simpa using hk'
          exact ⟨rest, rfl⟩
      have hd : Diverge (names (k' :: rest)) [k.name] := (hapart _ hmem).symm
      exact diverge_single hd he.symm
    · obtain ⟨rfl, rfl⟩ := Prod.mk.inj (List.mem_singleton.mp hk)
      exact hs.single k rfl

theorem extendTo_table (value : Node) (span : Option Span) (form : Form)
    (fields : List (Key × Node)) :
    ∃ span', extendTo value (.table span form fields) = .table span' form fields := by
  cases span with
  | none => exact ⟨none, rfl⟩
  | some span => exact ⟨_, rfl⟩

theorem assignAll_filled {done pairs : Assignments} {form : Form} {fields : List (Key × Node)}
    (span : Option Span) (hform : form ≠ .dotted) (hsome : ∀ a ∈ pairs, a.1 ≠ [])
    (hapart : Apart ((done ++ pairs).map fun a => names a.1)) (h : Filled done fields) :
    ∃ span' fields', assignAll (.table span form fields) pairs = some (.table span' form fields') ∧
      Filled (done ++ pairs) fields' := by
  induction pairs generalizing done span fields with
  | nil => exact ⟨span, fields, rfl, by rwa [List.append_nil]⟩
  | cons a pairs ih =>
    obtain ⟨path, value⟩ := a
    have hpath : path ≠ [] := hsome (path, value) List.mem_cons_self
    have hdone : ∀ b ∈ done, Diverge (names b.1) (names path) := by
      rw [Apart, List.map_append, List.pairwise_append] at hapart
      intro b hb
      exact hapart.2.2 _ (List.mem_map_of_mem hb) _ (by simp)
    obtain ⟨span', he⟩ := extendTo_table value span form fields
    obtain ⟨fields', ha, hs⟩ := assign_free value span' hform
      (h.free (names path) (by simpa [names] using hpath) fun b hb => (hdone b hb).symm)
    -- what the first assignment leaves is filled by one more, and the others follow
    have hassoc : done ++ (path, value) :: pairs = done ++ [(path, value)] ++ pairs := by simp
    rw [hassoc] at hapart ⊢
    obtain ⟨span'', fields'', hr, hf⟩ := ih span'
      (fun b hb => hsome b (List.mem_cons_of_mem _ hb)) hapart (h.concat hdone hs)
    refine ⟨span'', fields'', ?_, hf⟩
    show (assign (extendTo value (.table span form fields)) path value >>=
      fun t => assignAll t pairs) = _
    rw [he, ha]
    exact hr

theorem assignAll_apart {pairs : Assignments} (span : Option Span) {form : Form}
    (hform : form ≠ .dotted) (hsome : ∀ a ∈ pairs, a.1 ≠ [])
    (hapart : Apart (pairs.map fun a => names a.1)) :
    ∃ span' fields, assignAll (.table span form []) pairs = some (.table span' form fields) ∧
      Filled pairs fields :=
  @assignAll_filled [] pairs form [] span hform hsome hapart filled_nil

end ServerActions.Toml
