import TreePlan.Json.Reader
import TreePlan.Proofs.Except

/-! The keys of a map. Each comes once, also in what has been read. -/

namespace TreePlan

namespace Fields

variable {fields : Fields}

theorem keys_cons (k : Text) (v : Value) (fields : Fields) :
    keys ((k, v) :: fields) = k :: fields.keys := rfl

theorem keys_append (fields more : Fields) : keys (fields ++ more) = fields.keys ++ more.keys :=
  List.map_append

/-- A new key comes last. -/
theorem insert_of_notMem {k : Text} (h : k ∉ fields.keys) (v : Value) :
    fields.insert k v = fields ++ [(k, v)] := by
  induction fields with
  | nil => rfl
  | cons p r ih =>
    obtain ⟨k', v'⟩ := p
    rw [keys_cons, List.mem_cons, not_or] at h
    rw [insert, if_neg fun he => h.1 he.symm, ih h.2]
    rfl

theorem keys_insert_of_mem {k : Text} (h : k ∈ fields.keys) (v : Value) :
    (fields.insert k v).keys = fields.keys := by
  induction fields with
  | nil => cases h
  | cons p r ih =>
    obtain ⟨k', v'⟩ := p
    by_cases hk : k' = k
    · rw [insert, if_pos hk, keys_cons, keys_cons, hk]
    · have hr : k ∈ keys r := (List.mem_cons.1 h).resolve_left fun he => hk he.symm
      rw [insert, if_neg hk, keys_cons, keys_cons, ih hr]

theorem nodup_keys_insert (h : fields.keys.Nodup) (k : Text) (v : Value) :
    (fields.insert k v).keys.Nodup := by
  by_cases hk : k ∈ fields.keys
  · rwa [keys_insert_of_mem hk]
  · rw [insert_of_notMem hk, keys_append, List.nodup_append]
    refine ⟨h, by simp [keys], fun a ha b hb he => hk ?_⟩
    have hb : b = k := by simpa [keys] using hb
    rwa [← hb, ← he]

theorem nodup_keys_ofList (pairs : List (Text × Value)) : (ofList pairs).keys.Nodup := by
  have step : ∀ (pairs : List (Text × Value)) (fields : Fields), fields.keys.Nodup →
      (pairs.foldl (fun fields p => insert fields p.1 p.2) fields).keys.Nodup := by
    intro pairs
    induction pairs with
    | nil => exact fun _ h => h
    | cons p pairs ih => exact fun fields h => ih _ (nodup_keys_insert h p.1 p.2)
  exact step pairs [] (by simp [keys])

/-- Pairs with distinct keys are a map as they are. -/
theorem ofList_of_nodup (h : fields.keys.Nodup) : ofList fields = fields := by
  have step : ∀ more fields : Fields, (fields ++ more).keys.Nodup →
      more.foldl (fun fields p => insert fields p.1 p.2) fields = fields ++ more := by
    intro more
    induction more with
    | nil => exact fun fields _ => (List.append_nil fields).symm
    | cons p more ih =>
      intro fields h
      have hp : p.1 ∉ fields.keys := by
        rw [keys_append] at h
        exact fun hm => (List.nodup_append.1 h).2.2 _ hm p.1 (by simp [keys]) rfl
      rw [List.foldl_cons, insert_of_notMem hp, ih _ (by rwa [List.append_assoc]), List.append_assoc]
      rfl
  exact step fields [] h

theorem keys_erase (fields : Fields) (k : Text) :
    (fields.erase k).keys = fields.keys.filter (· ≠ k) := by
  rw [keys, keys, erase, List.filter_map]
  rfl

theorem get?_of_notMem {k : Text} (h : k ∉ fields.keys) : fields.get? k = none := by
  induction fields with
  | nil => rfl
  | cons p r ih =>
    obtain ⟨k', v'⟩ := p
    rw [keys_cons, List.mem_cons, not_or] at h
    rw [get?_cons, if_neg h.1, ih h.2]

theorem erase_of_notMem {k : Text} (h : k ∉ fields.keys) : fields.erase k = fields := by
  refine List.filter_eq_self.2 fun p hp => decide_eq_true ?_
  rintro rfl
  exact h (List.mem_map_of_mem hp)

theorem get?_append (fields more : Fields) (key : Text) :
    get? (fields ++ more) key = (fields.get? key).or (more.get? key) := List.lookup_append

/-! Fields that are written over others. -/

def update (fields more : Fields) : Fields := more.foldl (fun fields p => insert fields p.1 p.2) fields

theorem update_append (fields more most : Fields) : update fields (more ++ most) = update (update fields more) most :=
  List.foldl_append

theorem ofList_eq_update (pairs : List (Text × Value)) : ofList pairs = update [] pairs := rfl

/-- What was written last is found. -/
theorem get?_update (fields more : Fields) (key : Text) :
    (update fields more).get? key = (get? more.reverse key).or (fields.get? key) := by
  induction more generalizing fields with
  | nil => rfl
  | cons p more ih =>
    have hfirst : update fields (p :: more) = update (fields.insert p.1 p.2) more := rfl
    have hlast : get? [p] key = if key = p.1 then some p.2 else none := get?_cons p.1 p.2 [] key
    rw [hfirst, ih, get?_insert, List.reverse_cons, get?_append, hlast, Option.or_assoc]
    split <;> rfl

theorem get?_update_of_nodup {more : Fields} (h : more.keys.Nodup) (fields : Fields) (key : Text) :
    (update fields more).get? key = (more.get? key).or (fields.get? key) := by
  have hmore : more.get? key = get? more.reverse key := by
    have hlast := get?_update [] more key
    rw [← ofList_eq_update, ofList_of_nodup h] at hlast
    exact hlast.trans Option.or_none
  rw [get?_update, hmore]

theorem get?_ofList (pairs : List (Text × Value)) (key : Text) :
    (ofList pairs).get? key = get? pairs.reverse key := by
  rw [ofList_eq_update, get?_update]
  exact Option.or_none

theorem insert_insert (fields : Fields) (k : Text) (v w : Value) :
    (fields.insert k v).insert k w = fields.insert k w := by
  induction fields with
  | nil => simp [insert]
  | cons p fields ih =>
    by_cases hk : p.1 = k
    · simp [insert, hk]
    · simp [insert, hk, ih]

/-- To write a key that is there already makes no difference to what is written after it. -/
theorem insert_comm_of_mem {k k' : Text} (h : k ∈ fields.keys) (hne : k' ≠ k) (v v' : Value) :
    (fields.insert k' v').insert k v = (fields.insert k v).insert k' v' := by
  induction fields with
  | nil => cases h
  | cons p fields ih =>
    by_cases hk : p.1 = k
    · simp [insert, hk, hne.symm]
    · have hmem : k ∈ keys fields := (List.mem_cons.1 h).resolve_left fun he => hk he.symm
      by_cases hk' : p.1 = k'
      · simp [insert, hk', hne]
      · simp [insert, hk, hk', ih hmem]

theorem mem_keys_insert {k key : Text} (h : key ∈ fields.keys) (v : Value) : key ∈ (fields.insert k v).keys := by
  by_cases hk : k ∈ fields.keys
  · rwa [keys_insert_of_mem hk]
  · rw [insert_of_notMem hk, keys_append]
    exact List.mem_append_left _ h

theorem mem_keys_insert_self (fields : Fields) (k : Text) (v : Value) : k ∈ (fields.insert k v).keys := by
  by_cases hk : k ∈ fields.keys
  · rwa [keys_insert_of_mem hk]
  · rw [insert_of_notMem hk, keys_append]
    exact List.mem_append_right _ (List.mem_singleton_self k)

theorem insert_update {more : Fields} {k : Text} (h : k ∈ fields.keys) (hmore : k ∉ more.keys) (v : Value) :
    (update fields more).insert k v = update (fields.insert k v) more := by
  induction more generalizing fields with
  | nil => rfl
  | cons p more ih =>
    rw [keys_cons, List.mem_cons, not_or] at hmore
    have hstep : ∀ fields : Fields, update fields (p :: more) = update (fields.insert p.1 p.2) more := fun _ => rfl
    rw [hstep, hstep, ih (mem_keys_insert h p.2) hmore.2, insert_comm_of_mem h (Ne.symm hmore.1)]

theorem update_insert {more : Fields} (hmore : more.keys.Nodup) (fields : Fields) (k : Text) (v : Value) :
    update fields (more.insert k v) = (update fields more).insert k v := by
  induction more generalizing fields with
  | nil => rfl
  | cons p more ih =>
    obtain ⟨k', v'⟩ := p
    rw [keys_cons, List.nodup_cons] at hmore
    have hstep (w : Value) (more : Fields) : update fields ((k', w) :: more) = update (fields.insert k' w) more := rfl
    by_cases hk : k' = k
    · subst hk
      rw [insert, if_pos rfl, hstep, hstep, insert_update (mem_keys_insert_self _ _ _) hmore.1, insert_insert]
    · rw [insert, if_neg hk, hstep, hstep, ih hmore.2]

/-- Pairs are written over fields as the map that they make is. -/
theorem update_update {more : Fields} (hmore : more.keys.Nodup) (fields pairs : Fields) :
    update fields (update more pairs) = update (update fields more) pairs := by
  induction pairs generalizing more with
  | nil => rfl
  | cons p pairs ih =>
    have hstep : ∀ fields : Fields, update fields (p :: pairs) = update (fields.insert p.1 p.2) pairs := fun _ => rfl
    rw [hstep, hstep, ih (nodup_keys_insert hmore p.1 p.2), update_insert hmore]

theorem ofList_append (pairs more : Fields) : ofList (pairs ++ more) = update (ofList pairs) (ofList more) := by
  have hnodup : (keys []).Nodup := List.nodup_nil
  rw [ofList_eq_update more, update_update hnodup, ofList_eq_update, update_append]
  rfl

theorem mem_of_get?_eq_some {key : Text} {value : Value} (h : fields.get? key = some value) :
    (key, value) ∈ fields := by
  induction fields with
  | nil => cases h
  | cons p fields ih =>
    obtain ⟨k, v⟩ := p
    rw [get?_cons] at h
    split at h
    · next hk =>
      cases h
      exact hk ▸ List.mem_cons_self
    · exact List.mem_cons_of_mem _ (ih h)

end Fields

namespace Json

theorem readNumber_ne_map {s r : Text} {fields : Fields} : readNumber s ≠ .ok (.map fields, r) := by
  intro h
  unfold readNumber at h
  dsimp only at h
  split at h
  · cases h
  · split at h
    · split at h
      · cases h
      · cases h
    · cases h

theorem readWord?_ne_map {s r : Text} {fields : Fields} : readWord? s ≠ some (.map fields, r) := by
  intro h
  obtain ⟨w, hw, h⟩ := List.exists_of_findSome?_eq_some h
  obtain ⟨r', -, he⟩ := Option.map_eq_some_iff.1 h
  have hmap : w.2 = .map fields := congrArg Prod.fst he
  have hnone : ∀ w ∈ words, w.2 ≠ .map fields := by simp [words]
  exact hnone w hw hmap

theorem nodup_keys_of_readValue {depth : Nat} {s r : Text} {fields : Fields}
    (h : readValue depth s = .ok (.map fields, r)) : fields.keys.Nodup := by
  cases depth with
  | zero => cases h
  | succ depth =>
    cases s with
    | nil => cases h
    | cons c s =>
      rw [readValue] at h
      split at h
      · obtain ⟨p, -, hp⟩ := map_eq_ok_iff.1 h
        cases hp
      · split at h
        · split at h
          · cases h
            simp [Fields.keys]
          · obtain ⟨p, -, hp⟩ := map_eq_ok_iff.1 h
            cases hp
            exact Fields.nodup_keys_ofList p.1
        · split at h
          · split at h
            · cases h
            · obtain ⟨p, -, hp⟩ := map_eq_ok_iff.1 h
              cases hp
          · split at h
            · next p hp =>
              cases h
              exact absurd hp readWord?_ne_map
            · exact absurd h readNumber_ne_map

theorem nodup_keys_of_read {s : Text} {fields : Fields} (h : read s = .ok (.map fields)) :
    fields.keys.Nodup := by
  unfold read at h
  split at h
  · cases h
  · obtain ⟨⟨v, r⟩, hv, h⟩ := bind_eq_ok_iff.1 h
    dsimp only at h
    split at h
    · cases h
      exact nodup_keys_of_readValue hv
    · cases h

end Json

end TreePlan
