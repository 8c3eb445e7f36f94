/-
  Ordered maps: lists of entries under keys. The order is the order of first insertion, a value
  stored again keeps its place, and a key that occurs twice is read at its first place.
-/

namespace DocQuery

/-- Entries in the order in which their keys first came up. -/
abbrev Keyed (κ α : Type) := List (κ × α)

namespace Keyed

variable {κ α : Type} [DecidableEq κ]

/-- The value stored under a key. -/
def get? : Keyed κ α → κ → Option α
  | [], _ => none
  | (k, v) :: rest, key => if k = key then some v else get? rest key

/-- Whether a key is in use. -/
def has (m : Keyed κ α) (key : κ) : Bool := (get? m key).isSome

/-- The keys, in order. -/
def keys (m : Keyed κ α) : List κ := m.map Prod.fst

/-- Stores a value: in place if the key is in use, at the end if it is new. -/
def put : Keyed κ α → κ → α → Keyed κ α
  | [], key, value => [(key, value)]
  | (k, v) :: rest, key, value =>
    if k = key then (k, value) :: rest else (k, v) :: put rest key value

/-- Drops a key, keeping the order of the others. -/
def erase (m : Keyed κ α) (key : κ) : Keyed κ α := m.filter fun e => e.1 ≠ key

/-- Stores entries one after the other, so that a repeated key keeps its first place and its
last value. -/
def ofList (entries : List (κ × α)) : Keyed κ α :=
  entries.foldl (fun m e => put m e.1 e.2) []

/-! ## Reading back -/

@[simp] theorem get?_nil (key : κ) : get? ([] : Keyed κ α) key = none := rfl

@[simp] theorem get?_cons_self (k : κ) (v : α) (m : Keyed κ α) : get? ((k, v) :: m) k = some v := by
  simp [get?]

theorem get?_cons_other {k key : κ} (h : k ≠ key) (v : α) (m : Keyed κ α) :
    get? ((k, v) :: m) key = get? m key := by
  simp [get?, h]

@[simp] theorem get?_put_self (m : Keyed κ α) (key : κ) (value : α) :
    get? (put m key value) key = some value := by
  induction m with
  | nil => simp [put]
  | cons e m ih => obtain ⟨k, v⟩ := e; by_cases h : k = key <;> simp [put, get?, h, ih]

theorem get?_put_other (m : Keyed κ α) {key other : κ} (value : α) (h : other ≠ key) :
    get? (put m key value) other = get? m other := by
  induction m with
  | nil => simp [put, get?, Ne.symm h]
  | cons e m ih =>
    obtain ⟨k, v⟩ := e
    by_cases hk : k = key
    · subst hk; simp [put, get?, Ne.symm h]
    · simp [put, get?, hk, ih]

theorem has_put_iff (m : Keyed κ α) (key : κ) (value : α) (other : κ) :
    has (put m key value) other = true ↔ has m other = true ∨ other = key := by
  by_cases he : other = key
  · subst he
    simp [has]
  · simp [has, get?_put_other _ _ he, he]

/-- Storing a value takes no key out of use. -/
theorem has_put {m : Keyed κ α} {other : κ} (h : has m other = true) (key : κ) (value : α) :
    has (put m key value) other = true :=
  (has_put_iff m key value other).mpr (.inl h)

@[simp] theorem get?_erase_self (m : Keyed κ α) (key : κ) : get? (erase m key) key = none := by
  induction m with
  | nil => rfl
  | cons e m ih =>
    obtain ⟨k, v⟩ := e
    by_cases h : k = key
    · simpa [erase, h] using ih
    · simpa [erase, h, get?] using ih

theorem get?_erase_other (m : Keyed κ α) {key other : κ} (h : other ≠ key) :
    get? (erase m key) other = get? m other := by
  induction m with
  | nil => rfl
  | cons e m ih =>
    obtain ⟨k, v⟩ := e
    by_cases hk : k = key
    · subst hk; simpa [erase, get?, Ne.symm h] using ih
    · by_cases ho : k = other <;> simp_all [erase, get?]

theorem erase_put_self (m : Keyed κ α) (key : κ) (value : α) :
    erase (put m key value) key = erase m key := by
  induction m with
  | nil => simp [put, erase]
  | cons e m ih =>
    obtain ⟨k, v⟩ := e
    unfold erase at ih ⊢
    by_cases h : k = key
    · subst h; simp [put]
    · rw [put, if_neg h, List.filter_cons, List.filter_cons, ih]

/-! ## Storing twice -/

/-- Storing what is there already changes nothing. -/
theorem put_self {m : Keyed κ α} {key : κ} {value : α} (h : get? m key = some value) :
    put m key value = m := by
  induction m with
  | nil => nomatch h
  | cons e m ih =>
    obtain ⟨k, v⟩ := e
    by_cases hk : k = key
    · subst hk
      rw [get?_cons_self] at h
      rw [put, if_pos rfl, Option.some.inj h]
    · rw [get?_cons_other hk] at h
      rw [put, if_neg hk, ih h]

theorem put_put (m : Keyed κ α) (key : κ) (first second : α) :
    put (put m key first) key second = put m key second := by
  induction m with
  | nil => simp [put]
  | cons e m ih =>
    obtain ⟨k, v⟩ := e
    by_cases hk : k = key
    · simp [put, hk]
    · simp [put, hk, ih]

/-- A key in use keeps its place, whatever is stored under others in the meantime. -/
theorem put_comm {m : Keyed κ α} {key other : κ} (hkey : (get? m key).isSome) (h : other ≠ key)
    (value stored : α) :
    put (put m other stored) key value = put (put m key value) other stored := by
  induction m with
  | nil => nomatch hkey
  | cons e m ih =>
    obtain ⟨k, v⟩ := e
    by_cases hk : k = key
    · subst hk
      simp [put, h.symm]
    · rw [get?_cons_other hk] at hkey
      by_cases ho : k = other
      · simp [put, ho, h]
      · simp [put, hk, ho, ih hkey]

theorem erase_of_get?_eq_none {m : Keyed κ α} {key : κ} (h : get? m key = none) :
    erase m key = m := by
  induction m with
  | nil => rfl
  | cons e m ih =>
    obtain ⟨k, v⟩ := e
    have hk : k ≠ key := by
      rintro rfl
      rw [get?_cons_self] at h
      cases h
    rw [get?_cons_other hk] at h
    have hrest := ih h
    unfold erase at hrest ⊢
    rw [List.filter_cons_of_pos (by simpa using hk), hrest]

/-! ## Entries -/

theorem mem_put_self (m : Keyed κ α) (key : κ) (value : α) : (key, value) ∈ put m key value := by
  induction m with
  | nil => exact List.mem_singleton_self _
  | cons e m ih =>
    obtain ⟨k, v⟩ := e
    unfold put
    split
    · next h =>
      subst h
      exact List.mem_cons_self
    · exact List.mem_cons_of_mem _ ih

/-- Storing a value adds no other entry. -/
theorem mem_of_mem_put {m : Keyed κ α} {key : κ} {value : α} {e : κ × α}
    (h : e ∈ put m key value) : e = (key, value) ∨ e ∈ m := by
  induction m with
  | nil => exact .inl (List.mem_singleton.mp h)
  | cons e' m ih =>
    obtain ⟨k, v⟩ := e'
    unfold put at h
    split at h
    · next hk =>
      subst hk
      rcases List.mem_cons.mp h with h | h
      · exact .inl h
      · exact .inr (List.mem_cons_of_mem _ h)
    · rcases List.mem_cons.mp h with h | h
      · exact .inr (h ▸ List.mem_cons_self)
      · exact (ih h).imp_right (List.mem_cons_of_mem _)

theorem mem_of_mem_erase {m : Keyed κ α} {key : κ} {e : κ × α} (h : e ∈ erase m key) : e ∈ m :=
  (List.mem_filter.mp h).1

/-! ## Keys in order -/

theorem mem_keys_iff (m : Keyed κ α) (key : κ) : key ∈ keys m ↔ (get? m key).isSome := by
  induction m with
  | nil => simp [keys]
  | cons e m ih =>
    obtain ⟨k, v⟩ := e
    by_cases h : k = key
    · simp [keys, get?, h]
    · simp only [keys] at ih; simp [keys, get?, h, Ne.symm h, ih]

/-- Which keys are in use does not hang on the order of the entries. -/
theorem has_perm {m m' : Keyed κ α} (h : m.Perm m') (key : κ) : has m key = has m' key := by
  have hkeys : key ∈ keys m ↔ key ∈ keys m' := (h.map Prod.fst).mem_iff
  rwa [mem_keys_iff, mem_keys_iff, ← Bool.eq_iff_iff] at hkeys

theorem keys_put (m : Keyed κ α) (key : κ) (value : α) :
    keys (put m key value) = if key ∈ keys m then keys m else keys m ++ [key] := by
  induction m with
  | nil => simp [put, keys]
  | cons e m ih =>
    obtain ⟨k, v⟩ := e
    by_cases h : k = key
    · simp [put, keys, h]
    · simp only [keys] at ih
      by_cases hm : key ∈ List.map Prod.fst m <;> simp_all [put, keys, Ne.symm h]

/-- A new key goes to the end. -/
theorem put_of_not_mem {m : Keyed κ α} {key : κ} (value : α) (h : key ∉ keys m) :
    put m key value = m ++ [(key, value)] := by
  induction m with
  | nil => rfl
  | cons e m ih =>
    obtain ⟨k, v⟩ := e
    simp only [keys, List.map_cons, List.mem_cons, not_or] at h
    rw [put, if_neg (Ne.symm h.1), ih h.2]
    rfl

theorem nodup_keys_put {m : Keyed κ α} (h : (keys m).Nodup) (key : κ) (value : α) :
    (keys (put m key value)).Nodup := by
  rw [keys_put]
  split
  · exact h
  · next hn =>
    rw [List.nodup_append]
    refine ⟨h, by simp, ?_⟩
    intro k hk k' hk' he
    rw [List.mem_singleton.mp hk'] at he
    exact hn (he ▸ hk)

theorem ofList_append_single (entries : List (κ × α)) (e : κ × α) :
    ofList (entries ++ [e]) = put (ofList entries) e.1 e.2 := by
  unfold ofList
  rw [List.foldl_append, List.foldl_cons, List.foldl_nil]

theorem nodup_keys_ofList (entries : List (κ × α)) : (keys (ofList entries)).Nodup := by
  have hfold : ∀ m : Keyed κ α, (keys m).Nodup →
      (keys (entries.foldl (fun m e => put m e.1 e.2) m)).Nodup := by
    induction entries with
    | nil => exact fun _ hm => hm
    | cons e entries ih => exact fun m hm => ih _ (nodup_keys_put hm e.1 e.2)
  exact hfold [] List.nodup_nil

theorem mem_keys_ofList {entries : List (κ × α)} {key : κ} :
    key ∈ keys (ofList entries) ↔ key ∈ keys entries := by
  have hfold : ∀ m : Keyed κ α, key ∈ keys (entries.foldl (fun m e => put m e.1 e.2) m) ↔
      key ∈ keys m ∨ key ∈ keys entries := by
    induction entries with
    | nil => simp [keys]
    | cons e entries ih =>
      intro m
      have hput : key ∈ keys (put m e.1 e.2) ↔ key ∈ keys m ∨ key = e.1 := by
        rw [mem_keys_iff, mem_keys_iff]
        exact has_put_iff m e.1 e.2 key
      rw [List.foldl_cons, ih, hput, or_assoc]
      simp [keys]
  exact (hfold []).trans (by simp [keys])

theorem has_ofList (entries : List (κ × α)) (key : κ) :
    has (ofList entries) key = has entries key := by
  have hkeys := @mem_keys_ofList κ α _ entries key
  rwa [mem_keys_iff, mem_keys_iff, ← Bool.eq_iff_iff] at hkeys

theorem nodup_keys_erase {m : Keyed κ α} (h : (keys m).Nodup) (key : κ) :
    (keys (erase m key)).Nodup :=
  h.sublist (List.Sublist.map _ List.filter_sublist)

theorem mem_of_get? {m : Keyed κ α} {key : κ} {value : α} (h : get? m key = some value) :
    (key, value) ∈ m := by
  induction m with
  | nil => cases h
  | cons e m ih =>
    obtain ⟨k, v⟩ := e
    by_cases hk : k = key
    · subst hk
      rw [get?_cons_self] at h
      rw [Option.some.inj h]
      exact List.mem_cons_self
    · rw [get?_cons_other hk] at h
      exact List.mem_cons_of_mem _ (ih h)

/-- With every key in use once, an entry is what its key leads to. -/
theorem mem_iff_get? {m : Keyed κ α} (h : (keys m).Nodup) (key : κ) (value : α) :
    (key, value) ∈ m ↔ get? m key = some value := by
  induction m with
  | nil => simp
  | cons e m ih =>
    obtain ⟨k, v⟩ := e
    obtain ⟨hk, hm⟩ := List.nodup_cons.mp h
    by_cases hkey : k = key
    · subst hkey
      have hnone : (k, value) ∉ m := fun hmem => hk (List.mem_map.mpr ⟨_, hmem, rfl⟩)
      simp [hnone, eq_comm]
    · rw [get?_cons_other hkey, ← ih hm]
      simp [Ne.symm hkey]

/-- With every key in use once, the order of the entries does not matter. -/
theorem get?_perm {m m' : Keyed κ α} (h : m.Perm m') (hn : (keys m).Nodup) (key : κ) :
    get? m key = get? m' key := by
  have hn' : (keys m').Nodup := (h.map Prod.fst).nodup_iff.mp hn
  apply Option.ext
  intro value
  exact (mem_iff_get? hn key value).symm.trans (h.mem_iff.trans (mem_iff_get? hn' key value))

end Keyed
end DocQuery
