import JsxOrigin.Table

/-!
# Laws of tables

Where the entries of a table come from, and what its operations leave alone. A table of records
gives for a key what was recorded for it last (`Table.get?_ofList`).
-/

namespace JsxOrigin

namespace Table

variable {κ α : Type} [DecidableEq κ]

theorem mem_of_get? {key : κ} {value : α} {t : Table κ α} (found : get? key t = some value) :
    (key, value) ∈ t := by
  induction t with
  | nil => cases found
  | cons e rest ih =>
    obtain ⟨k, v⟩ := e
    rw [get?] at found
    split at found
    · rename_i same
      cases found
      rw [same]
      exact List.mem_cons_self
    · exact List.mem_cons_of_mem _ (ih found)

/-- An entry of a table after a record is that record or was there before. -/
theorem mem_of_mem_set {key : κ} {value : α} {t : Table κ α} {e : κ × α}
    (mem : e ∈ set key value t) : e = (key, value) ∨ e ∈ t := by
  induction t with
  | nil => exact .inl (List.mem_singleton.mp mem)
  | cons first rest ih =>
    obtain ⟨k, v⟩ := first
    rw [set] at mem
    split at mem
    · rcases List.mem_cons.mp mem with rfl | later
      · exact .inl rfl
      · exact .inr (List.mem_cons_of_mem _ later)
    · rcases List.mem_cons.mp mem with rfl | later
      · exact .inr List.mem_cons_self
      · exact (ih later).imp_right (List.mem_cons_of_mem _)

omit [DecidableEq κ] in
theorem mem_keys {key : κ} {value : α} {t : Table κ α} (mem : (key, value) ∈ t) : key ∈ t.keys :=
  List.mem_map_of_mem mem

/-- With every key recorded once, an entry is what its key gives. -/
theorem get?_of_mem {key : κ} {value : α} {t : Table κ α} (once : t.keys.Nodup)
    (mem : (key, value) ∈ t) : get? key t = some value := by
  induction t with
  | nil => simp at mem
  | cons e rest ih =>
    obtain ⟨k, v⟩ := e
    obtain ⟨fresh, onceLater⟩ := List.nodup_cons.mp once
    rcases List.mem_cons.mp mem with same | later
    · cases same
      exact if_pos rfl
    · have differs : k ≠ key := by
        rintro rfl
        exact fresh (mem_keys later)
      rw [get?, if_neg differs]
      exact ih onceLater later

/-- Tables with the same entries in another order give the same for every key, if no key is
recorded twice. -/
theorem get?_of_perm {t t' : Table κ α} (reordered : t'.Perm t) (once : t.keys.Nodup) (key : κ) :
    get? key t' = get? key t := by
  cases found : get? key t with
  | some value =>
    have onceToo : (keys t').Nodup := (reordered.map Prod.fst).nodup_iff.mpr once
    exact get?_of_mem onceToo (reordered.mem_iff.mpr (mem_of_get? found))
  | none =>
    cases found' : get? key t' with
    | none => rfl
    | some value =>
      have known : get? key t = some value :=
        get?_of_mem once (reordered.mem_iff.mp (mem_of_get? found'))
      rw [found] at known
      cases known

/-- With every key recorded once, a key tells entries apart. -/
theorem eq_of_key_eq {t : Table κ α} (once : t.keys.Nodup) {e e' : κ × α} (mem : e ∈ t)
    (mem' : e' ∈ t) (same : e.1 = e'.1) : e = e' := by
  obtain ⟨key, value⟩ := e
  obtain ⟨key', value'⟩ := e'
  obtain rfl : key = key' := same
  have values := (get?_of_mem once mem).symm.trans (get?_of_mem once mem')
  rw [Option.some.inj values]

/-- Tables that give the same for every key have the same entries, if no key is recorded twice. -/
theorem perm_of_get? {t t' : Table κ α} (once : t.keys.Nodup) (once' : t'.keys.Nodup)
    (same : ∀ key, get? key t' = get? key t) : t'.Perm t := by
  have distinct {u : Table κ α} (once : u.keys.Nodup) : u.Nodup :=
    List.Pairwise.of_map Prod.fst (fun _ _ differ eq => differ (congrArg _ eq)) once
  refine (List.perm_ext_iff_of_nodup (distinct once') (distinct once)).mpr ?_
  rintro ⟨key, value⟩
  constructor
  · intro mem
    exact mem_of_get? ((same key).symm.trans (get?_of_mem once' mem))
  · intro mem
    exact mem_of_get? ((same key).trans (get?_of_mem once mem))

/-- A new key is recorded at the end. -/
theorem set_of_not_mem {key : κ} {t : Table κ α} (fresh : key ∉ t.keys) (value : α) :
    set key value t = t ++ [(key, value)] := by
  induction t with
  | nil => rfl
  | cons e rest ih =>
    obtain ⟨k, v⟩ := e
    simp only [keys, List.map_cons, List.mem_cons, not_or] at fresh
    rw [set, if_neg (Ne.symm fresh.1), ih fresh.2, List.cons_append]

theorem keys_set_of_mem {key : κ} {t : Table κ α} (mem : key ∈ t.keys) (value : α) :
    (set key value t).keys = t.keys := by
  induction t with
  | nil => simp [keys] at mem
  | cons e rest ih =>
    obtain ⟨k, v⟩ := e
    rw [set]
    split
    · rename_i same
      rw [keys, List.map_cons, keys, List.map_cons, same]
    · rename_i differs
      have later : key ∈ keys rest := by
        rcases List.mem_cons.mp mem with same | later
        · exact absurd same.symm differs
        · exact later
      rw [keys, List.map_cons, keys, List.map_cons]
      exact congrArg (k :: ·) (ih later)

theorem keys_set (key : κ) (value : α) (t : Table κ α) :
    (set key value t).keys = if key ∈ t.keys then t.keys else t.keys ++ [key] := by
  split
  · rename_i mem
    exact keys_set_of_mem mem value
  · rename_i fresh
    rw [set_of_not_mem fresh, keys, List.map_append]
    rfl

theorem keys_erase (key : κ) (t : Table κ α) : (erase key t).keys = t.keys.filter (· ≠ key) := by
  rw [keys, erase, keys, List.filter_map]
  rfl

theorem nodup_keys_set {t : Table κ α} (once : t.keys.Nodup) (key : κ) (value : α) :
    (set key value t).keys.Nodup := by
  by_cases mem : key ∈ t.keys
  · rwa [keys_set_of_mem mem]
  · rw [set_of_not_mem mem, keys, List.map_append, List.nodup_append]
    refine ⟨once, by simp, ?_⟩
    intro k old k' new same
    have isKey : k' = key := by simpa using new
    subst same isKey
    exact mem old

theorem nodup_keys_ofList (records : List (κ × α)) : (ofList records).keys.Nodup := by
  have kept : ∀ t : Table κ α, t.keys.Nodup →
      (keys (records.foldl (fun t r => set r.1 r.2 t) t)).Nodup := by
    induction records with
    | nil => exact fun t once => once
    | cons r records ih => exact fun t once => ih _ (nodup_keys_set once r.1 r.2)
  exact kept [] List.nodup_nil

/-- Records with distinct keys are a table as they stand. -/
theorem ofList_of_nodup {records : List (κ × α)} (distinct : (records.map Prod.fst).Nodup) :
    ofList records = records := by
  -- the fold appends each record to those before it, none of which has its key
  have appends : ∀ (done rest : Table κ α), ((done ++ rest).map Prod.fst).Nodup →
      rest.foldl (fun t r => set r.1 r.2 t) done = done ++ rest := by
    intro done rest
    induction rest generalizing done with
    | nil => simp
    | cons r rest ih =>
      intro nodup
      have fresh : r.1 ∉ done.keys := by
        rw [List.map_append, List.nodup_append] at nodup
        intro mem
        exact nodup.2.2 r.1 mem r.1 (by simp) rfl
      rw [List.foldl_cons, set_of_not_mem fresh, ih, List.append_assoc, List.singleton_append]
      simpa using nodup
  exact appends [] records distinct

theorem mem_keys_iff {key : κ} {t : Table κ α} : key ∈ t.keys ↔ (get? key t).isSome := by
  induction t with
  | nil => simp [keys, get?]
  | cons e rest ih =>
    obtain ⟨k, v⟩ := e
    by_cases same : k = key
    · simp [keys, get?, same]
    · rw [keys, List.map_cons, List.mem_cons, get?, if_neg same, ← ih]
      exact ⟨fun mem => mem.resolve_left (Ne.symm same), .inr⟩

/-- A table after some records gives the last one for a key, or else what it gave before. -/
theorem get?_foldl_set (key : κ) (records : List (κ × α)) (t : Table κ α) :
    get? key (records.foldl (fun t r => set r.1 r.2 t) t) =
      ((records.filter (·.1 = key)).getLast?.map Prod.snd).or (get? key t) := by
  induction records generalizing t with
  | nil => rfl
  | cons r records ih =>
    rw [List.foldl_cons, ih]
    by_cases same : r.1 = key
    · subst same
      simp only [decide_true, List.filter_cons_of_pos, List.getLast?_cons, get?_set_self]
      cases (records.filter (·.1 = r.1)).getLast? <;> rfl
    · simp [same, get?_set_of_ne (Ne.symm same)]

/-- **The last record counts.** -/
theorem get?_ofList (key : κ) (records : List (κ × α)) :
    get? key (ofList records) = (records.filter (·.1 = key)).getLast?.map Prod.snd := by
  rw [ofList, get?_foldl_set, get?, Option.or_none]

theorem mem_of_mem_ofList {records : List (κ × α)} {e : κ × α} (mem : e ∈ ofList records) :
    e ∈ records := by
  have found := get?_of_mem (nodup_keys_ofList records) mem
  rw [get?_ofList] at found
  obtain ⟨last, isLast, same⟩ := Option.map_eq_some_iff.mp found
  obtain ⟨recorded, isKey⟩ := List.mem_filter.mp (List.mem_of_getLast? isLast)
  rwa [← Prod.ext (of_decide_eq_true isKey) same]

/-- Each key that is recorded is in the table. -/
theorem exists_mem_ofList {records : List (κ × α)} {e : κ × α} (mem : e ∈ records) :
    ∃ value, (e.1, value) ∈ ofList records := by
  have listed : e ∈ records.filter (·.1 = e.1) := by simp [mem]
  obtain ⟨last, isLast⟩ := Option.isSome_iff_exists.mp
    (List.getLast?_isSome.mpr (List.ne_nil_of_mem listed))
  refine ⟨last.2, mem_of_get? ?_⟩
  rw [get?_ofList, isLast]
  rfl

theorem get?_filter (keep : κ → Bool) (key : κ) (t : Table κ α) :
    get? key (t.filter fun e => keep e.1) = if keep key then get? key t else none := by
  induction t with
  | nil => simp [get?]
  | cons e rest ih =>
    obtain ⟨k, v⟩ := e
    by_cases kept : keep k <;> by_cases same : k = key
    · subst same
      simp [get?, kept]
    · simp [get?, kept, same, ih]
    · subst same
      simp [kept, ih]
    · simp [get?, kept, same, ih]

theorem get?_erase (key other : κ) (t : Table κ α) :
    get? other (erase key t) = if other = key then none else get? other t := by
  have kept : get? other (erase key t) = _ := get?_filter (fun k => decide (k ≠ key)) other t
  rw [kept]
  by_cases same : other = key <;> simp [same]

theorem map_set {β : Type} (f : α → β) (key : κ) (value : α) (t : Table κ α) :
    (set key value t).map (fun e => (e.1, f e.2)) =
      set key (f value) (t.map fun e => (e.1, f e.2)) := by
  induction t with
  | nil => rfl
  | cons e rest ih =>
    obtain ⟨k, v⟩ := e
    rw [set, List.map_cons, set]
    split
    · rfl
    · rw [List.map_cons, ih]

end Table

end JsxOrigin
