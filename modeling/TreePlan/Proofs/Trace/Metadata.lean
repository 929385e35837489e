import Mathlib
import TreePlan.Proofs.Text.Order
import TreePlan.Proofs.Trace.Recall

/-! What an observer is told of metadata. A key says of the content whether there is one and how long it is, and
of a value that is no scalar of what kind it is. Such a key comes behind the one that it speaks of, so a scalar
that stands under it already is met later and stays. -/

namespace TreePlan

theorem Fields.get?_eq_some_of_unique {fields : Fields} {key : Text} {v : Value} (h : (key, v) ∈ fields)
    (hv : ∀ w, (key, w) ∈ fields → w = v) : fields.get? key = some v := by
  cases hget : fields.get? key with
  | none =>
    have hpair := List.lookup_eq_none_iff.1 hget _ h
    simp at hpair
  | some w => rw [hv w (Fields.mem_of_get?_eq_some hget)]

namespace Metadata

def presenceKey : Text := "content_present"

def lengthKey : Text := "content_length"

def kindKey (key : Text) : Text := key ++ "_type"

/-- A scalar, under any key but that of the content. -/
def Kept (m : Fields) (key : Text) (v : Value) : Prop :=
  key ≠ contentKey ∧ m.get? key = some v ∧ isScalar v = true

/-- No scalar stands under a key. -/
def Free (m : Fields) (key : Text) : Prop := ∀ v, ¬Kept m key v

/-- What is told of metadata: the scalars, and under keys that none of them has, whether there is a content, how
long it is, and of what kind the other values are. -/
inductive Told (m : Fields) : Text → Value → Prop where
  | kept {key : Text} {v : Value} : Kept m key v → Told m key v
  | presence {c : Value} : Free m presenceKey → m.get? contentKey = some c →
      Told m presenceKey (.bool (!isNull c))
  | length {c : Value} {n : Nat} : Free m lengthKey → m.get? contentKey = some c → length? c = some n →
      Told m lengthKey (.ofNat n)
  | kind {key : Text} {v : Value} : Free m (kindKey key) → key ≠ contentKey → m.get? key = some v →
      isScalar v = false → Told m (kindKey key) (.text (kindName v))

variable {m s : Fields} {k k' key : Text} {v v' w w' : Value}

section Keys

theorem kindKey_injective : Function.Injective kindKey := List.append_left_injective _

theorem lt_kindKey (k : Text) : k < kindKey k := Text.lt_append k (by decide)

theorem contentKey_lt_presenceKey : contentKey < presenceKey := by decide

theorem contentKey_lt_lengthKey : contentKey < lengthKey := by decide

/-- The name of a kind stands under a key with an ending of its own. -/
theorem kindKey_ne (k : Text) (h : key.getLast? ≠ some (CodePoint.ofChar 'e')) : kindKey k ≠ key := by
  rintro rfl
  refine h ?_
  rw [kindKey, List.getLast?_append]
  rfl

theorem kindKey_ne_presenceKey (k : Text) : kindKey k ≠ presenceKey := kindKey_ne k (by decide)

theorem kindKey_ne_lengthKey (k : Text) : kindKey k ≠ lengthKey := kindKey_ne k (by decide)

theorem kindKey_ne_contentKey (k : Text) : kindKey k ≠ contentKey := kindKey_ne k (by decide)

end Keys

section Contribution

theorem mem_contribution_iff : (key, w) ∈ contribution k v ↔
    (k ≠ contentKey ∧ isScalar v = true ∧ key = k ∧ w = v) ∨
      (k = contentKey ∧ key = presenceKey ∧ w = .bool (!isNull v)) ∨
      (k = contentKey ∧ key = lengthKey ∧ ∃ n, length? v = some n ∧ w = .ofNat n) ∨
      (k ≠ contentKey ∧ isScalar v = false ∧ key = kindKey k ∧ w = .text (kindName v)) := by
  unfold contribution
  by_cases hk : k = contentKey
  · rw [if_pos hk]
    cases length? v with
    | none => simp [hk, presenceKey]
    | some n => simp [hk, presenceKey, lengthKey]
  · rw [if_neg hk]
    cases isScalar v with
    | true => simp [hk]
    | false => simp [hk, kindKey]

/-- Nothing is told under a key that comes before the one it is told of. -/
theorem le_of_mem_contribution (h : (key, w) ∈ contribution k v) : k ≤ key := by
  rcases mem_contribution_iff.1 h with ⟨-, -, rfl, -⟩ | ⟨rfl, rfl, -⟩ | ⟨rfl, rfl, -⟩ | ⟨-, -, rfl, -⟩
  · exact le_rfl
  · exact contentKey_lt_presenceKey.le
  · exact contentKey_lt_lengthKey.le
  · exact (lt_kindKey k).le

/-- Where no scalar stands, a key and what is told under it are those of one value only. -/
theorem contribution_unique (hm : m.keys.Nodup) (hfree : Free m key) (hk : (k, v) ∈ m) (hk' : (k', v') ∈ m)
    (h : (key, w) ∈ contribution k v) (h' : (key, w') ∈ contribution k' v') : w' = w := by
  have hget := (Fields.get?_eq_some_iff hm).2 hk
  have hget' := (Fields.get?_eq_some_iff hm).2 hk'
  have hsame (he : k = k') : v = v' := by
    subst he
    exact Option.some.inj (hget.symm.trans hget')
  rcases mem_contribution_iff.1 h with ⟨hne, hs, rfl, -⟩ | ⟨hc, rfl, rfl⟩ | ⟨hc, rfl, n, hn, rfl⟩ | ⟨-, -, rfl, rfl⟩
  · exact absurd ⟨hne, hget, hs⟩ (hfree v)
  · rcases mem_contribution_iff.1 h' with ⟨hne, hs, rfl, -⟩ | ⟨hc', -, rfl⟩ | ⟨-, he, -⟩ | ⟨-, -, he, -⟩
    · exact absurd ⟨hne, hget', hs⟩ (hfree v')
    · rw [hsame (hc.trans hc'.symm)]
    · exact absurd he (by decide)
    · exact absurd he.symm (kindKey_ne_presenceKey k')
  · rcases mem_contribution_iff.1 h' with ⟨hne, hs, rfl, -⟩ | ⟨-, he, -⟩ | ⟨hc', -, n', hn', rfl⟩ | ⟨-, -, he, -⟩
    · exact absurd ⟨hne, hget', hs⟩ (hfree v')
    · exact absurd he (by decide)
    · rw [hsame (hc.trans hc'.symm), hn'] at hn
      rw [Option.some.inj hn]
    · exact absurd he.symm (kindKey_ne_lengthKey k')
  · rcases mem_contribution_iff.1 h' with ⟨hne, hs, rfl, -⟩ | ⟨-, he, -⟩ | ⟨-, he, -⟩ | ⟨-, -, he, rfl⟩
    · exact absurd ⟨hne, hget', hs⟩ (hfree v')
    · exact absurd he (kindKey_ne_presenceKey k)
    · exact absurd he (kindKey_ne_lengthKey k)
    · rw [hsame (kindKey_injective he)]

end Contribution

section Sanitize

/-- All that is told, in the order in which it is. -/
def contributions (m : Fields) : Fields := (Json.sortByKey m).flatMap fun p => contribution p.1 p.2

theorem get?_sanitize (m : Fields) (key : Text) : (sanitize m).get? key = Fields.get? (contributions m).reverse key :=
  Fields.get?_ofList (contributions m) key

theorem mem_contributions_iff : (key, w) ∈ contributions m ↔ ∃ k v, (k, v) ∈ m ∧ (key, w) ∈ contribution k v := by
  simp only [contributions, List.mem_flatMap, Prod.exists, (Json.perm_sortByKey m).mem_iff]

/-- Whatever else is told under the key of a scalar is told before the scalar is met. -/
theorem get?_sanitize_of_kept (hm : m.keys.Nodup) (h : Kept m key v) : (sanitize m).get? key = some v := by
  obtain ⟨hne, hget, hs⟩ := h
  have hmem : (key, v) ∈ Json.sortByKey m := (Json.perm_sortByKey m).mem_iff.2 (Fields.mem_of_get?_eq_some hget)
  obtain ⟨before, after, hsplit⟩ := List.append_of_mem hmem
  have hlater : ∀ p ∈ after, key < p.1 := by
    have hsorted := Json.sortByKey_lt hm
    rw [hsplit] at hsorted
    exact (List.pairwise_cons.1 (List.pairwise_append.1 hsorted).2.1).1
  have hown : contribution key v = [(key, v)] := by
    rw [contribution, if_neg hne, if_pos hs]
  have hnone : Fields.get? (after.flatMap fun p => contribution p.1 p.2).reverse key = none := by
    refine Fields.get?_of_notMem fun hm => ?_
    obtain ⟨⟨key', w⟩, hp, rfl⟩ := List.mem_map.1 hm
    obtain ⟨p, hp, hw⟩ := List.mem_flatMap.1 (List.mem_reverse.1 hp)
    exact absurd (hlater p hp) (le_of_mem_contribution hw).not_gt
  rw [get?_sanitize, contributions, hsplit, List.flatMap_append, List.flatMap_cons, hown, List.reverse_append,
    List.reverse_append, Fields.get?_append, Fields.get?_append, hnone]
  simp [Fields.get?_cons]

theorem get?_sanitize_of_free (hm : m.keys.Nodup) (hfree : Free m key) :
    (sanitize m).get? key = some w ↔ ∃ k v, (k, v) ∈ m ∧ (key, w) ∈ contribution k v := by
  rw [get?_sanitize, ← mem_contributions_iff]
  constructor
  · intro h
    exact List.mem_reverse.1 (Fields.mem_of_get?_eq_some h)
  · intro h
    obtain ⟨k, v, hk, hw⟩ := mem_contributions_iff.1 h
    refine Fields.get?_eq_some_of_unique (List.mem_reverse.2 h) fun w' h' => ?_
    obtain ⟨k', v', hk', hw'⟩ := mem_contributions_iff.1 (List.mem_reverse.1 h')
    exact contribution_unique hm hfree hk hk' hw hw'

theorem told_of_free (hm : m.keys.Nodup) (hfree : Free m key) (hk : (k, v) ∈ m) (h : (key, w) ∈ contribution k v) :
    Told m key w := by
  have hget := (Fields.get?_eq_some_iff hm).2 hk
  rcases mem_contribution_iff.1 h with ⟨hne, hs, rfl, rfl⟩ | ⟨rfl, rfl, rfl⟩ | ⟨rfl, rfl, n, hn, rfl⟩ |
    ⟨hne, hs, rfl, rfl⟩
  · exact .kept ⟨hne, hget, hs⟩
  · exact .presence hfree hget
  · exact .length hfree hget hn
  · exact .kind hfree hne hget hs

theorem get?_sanitize_eq_some_iff (hm : m.keys.Nodup) : (sanitize m).get? key = some w ↔ Told m key w := by
  constructor
  · intro h
    by_cases hkept : ∃ v, Kept m key v
    · obtain ⟨v, hv⟩ := hkept
      rw [get?_sanitize_of_kept hm hv] at h
      cases h
      exact .kept hv
    · have hfree : Free m key := not_exists.1 hkept
      obtain ⟨k, v, hk, hw⟩ := (get?_sanitize_of_free hm hfree).1 h
      exact told_of_free hm hfree hk hw
  · intro h
    cases h with
    | kept h => exact get?_sanitize_of_kept hm h
    | @presence c hfree hc =>
      refine (get?_sanitize_of_free hm hfree).2 ⟨contentKey, c, Fields.mem_of_get?_eq_some hc, ?_⟩
      exact mem_contribution_iff.2 (.inr (.inl ⟨rfl, rfl, rfl⟩))
    | @length c n hfree hc hn =>
      refine (get?_sanitize_of_free hm hfree).2 ⟨contentKey, c, Fields.mem_of_get?_eq_some hc, ?_⟩
      exact mem_contribution_iff.2 (.inr (.inr (.inl ⟨rfl, rfl, n, hn, rfl⟩)))
    | @kind k v hfree hne hk hs =>
      refine (get?_sanitize_of_free hm hfree).2 ⟨k, v, Fields.mem_of_get?_eq_some hk, ?_⟩
      exact mem_contribution_iff.2 (.inr (.inr (.inr ⟨hne, hs, rfl, rfl⟩)))

/-- Only scalars are told, and the content itself is not. -/
theorem Told.scalar (h : Told m key w) : isScalar w = true ∧ key ≠ contentKey := by
  cases h with
  | kept h => exact ⟨h.2.2, h.1⟩
  | presence => exact ⟨rfl, contentKey_lt_presenceKey.ne'⟩
  | length => exact ⟨rfl, contentKey_lt_lengthKey.ne'⟩
  | kind => exact ⟨rfl, kindKey_ne_contentKey _⟩

theorem nodup_keys_sanitize (m : Fields) : (sanitize m).keys.Nodup := Fields.nodup_keys_ofList _

theorem get?_sanitize_contentKey (hm : m.keys.Nodup) : (sanitize m).get? contentKey = none := by
  cases h : (sanitize m).get? contentKey with
  | none => rfl
  | some w => exact absurd rfl ((get?_sanitize_eq_some_iff hm).1 h).scalar.2

/-- What has been told is told again as it is. -/
theorem get?_sanitize_sanitize (hm : m.keys.Nodup) (key : Text) :
    (sanitize (sanitize m)).get? key = (sanitize m).get? key := by
  have hscalar {key : Text} {w : Value} (h : (sanitize m).get? key = some w) :=
    ((get?_sanitize_eq_some_iff hm).1 h).scalar
  refine Option.ext fun w => ?_
  rw [get?_sanitize_eq_some_iff (nodup_keys_sanitize m)]
  constructor
  · intro h
    cases h with
    | kept h => exact h.2.1
    | presence _ hc => exact absurd rfl (hscalar hc).2
    | length _ hc => exact absurd rfl (hscalar hc).2
    | kind _ _ hk hs =>
      rw [(hscalar hk).1] at hs
      cases hs
  · intro h
    exact .kept ⟨(hscalar h).2, h, (hscalar h).1⟩

theorem sanitize_eq_of_perm (hm : m.keys.Nodup) (h : m.Perm s) : sanitize s = sanitize m := by
  have hsorted : contributions s = contributions m := by
    rw [contributions, contributions, Json.sortByKey_eq_of_perm hm h]
  exact congrArg Fields.ofList hsorted

/-- All that is told of a pair, with its key. -/
def portion (p : Text × Value) : Text × Fields := (p.1, contribution p.1 p.2)

theorem contributions_eq (m : Fields) : contributions m = (Json.sortByKey (m.map portion)).flatMap Prod.snd := by
  have hsorted : (Json.sortByKey m).map portion = Json.sortByKey (m.map portion) :=
    List.map_mergeSort fun _ _ _ _ => rfl
  rw [← hsorted, List.flatMap_map]
  rfl

/-- Values that contribute the same may stand for each other. -/
theorem sanitize_insert_congr (m : Fields) (h : contribution k v = contribution k v') :
    sanitize (m.insert k v) = sanitize (m.insert k v') := by
  have hportions : (m.insert k v).map portion = (m.insert k v').map portion := by
    induction m with
    | nil => simp [Fields.insert, portion, h]
    | cons p m ih =>
      rw [Fields.insert, Fields.insert]
      split
      · simp [portion, h]
      · rw [List.map_cons, List.map_cons, ih]
  have hall : contributions (m.insert k v) = contributions (m.insert k v') := by
    rw [contributions_eq, contributions_eq, hportions]
  exact congrArg Fields.ofList hall

/-- An observer is told of metadata just what `Told` says, under each key one thing. It does not matter in which
order they are given, and of the content no more than whether it is there and how long it is. To sanitize them
again changes nothing. -/
theorem sanitize_told (hm : m.keys.Nodup) :
    (sanitize m).keys.Nodup ∧ (∀ key w, (sanitize m).get? key = some w ↔ Told m key w) ∧
      (∀ s, m.Perm s → sanitize s = sanitize m) ∧
      (∀ c c', isNull c = isNull c' → length? c = length? c' →
        sanitize (m.insert contentKey c) = sanitize (m.insert contentKey c')) ∧
      (sanitize m).get? contentKey = none ∧
      ∀ key, (sanitize (sanitize m)).get? key = (sanitize m).get? key := by
  refine ⟨nodup_keys_sanitize m, fun _ _ => get?_sanitize_eq_some_iff hm, fun _ => sanitize_eq_of_perm hm,
    fun c c' hnull hlength => sanitize_insert_congr m ?_, get?_sanitize_contentKey hm, get?_sanitize_sanitize hm⟩
  rw [contribution, contribution, if_pos rfl, if_pos rfl, hnull, hlength]

end Sanitize

/-- Metadata under the keys that stand in for others. -/
def clashing : Fields :=
  [("tags_type", .int 3), ("tags", .list []), ("content_length", .tuple []), ("content", .text "key"),
    ("mode", .int 0o600)]

theorem sanitize_told_clashing : clashing.keys.Nodup ∧
    (sanitize clashing).get? "tags_type" = some (.int 3) ∧
    (sanitize clashing).get? "content_length" = some (.ofNat 3) ∧
    (sanitize clashing).get? "content_length_type" = some (.text "tuple") ∧
    sanitize clashing.reverse = sanitize clashing ∧
    sanitize (clashing.insert contentKey (.text "pin")) = sanitize clashing ∧
    (sanitize (sanitize clashing)).get? "tags_type" = some (.int 3) := by
  have hm : clashing.keys.Nodup := by decide
  have hlength : Free clashing lengthKey := by
    rintro v ⟨-, hv, hs⟩
    cases hv
    cases hs
  have hkind : Free clashing (kindKey lengthKey) := by
    rintro v ⟨-, hv, -⟩
    cases hv
  obtain ⟨-, htold, hperm, hcontent, -, hagain⟩ := sanitize_told hm
  have htags := (htold "tags_type" (.int 3)).2 (.kept ⟨by decide, rfl, rfl⟩)
  refine ⟨hm, htags, (htold _ _).2 (.length hlength rfl rfl), (htold _ _).2 (.kind hkind (by decide) rfl rfl),
    hperm _ (List.reverse_perm clashing).symm, hcontent (.text "pin") (.text "key") rfl rfl,
    (hagain _).trans htags⟩

end Metadata

end TreePlan
