import NovaKV.Memory.OrderedMap

open Std
open NovaKV.Lib

namespace NovaKV

section

variable {K V : Type} {heap : Heap K V} {pre post towers : List (Tower K V)} {tower : Tower K V}

theorem Heap.next_set_next_of_ne (heap : Heap K V) (address other : Nat) {i j : Nat} (link : Option Nat)
    (h : i ≠ j) : (heap.set_next address i link).next other j = heap.next other j := by
  rw [Heap.next, Heap.node?_set_next, Heap.next]
  cases heap.node? other with
  | none => simp
  | some node =>
    by_cases heq : address = other
    · simp [heq, List.getElem?_set_ne h]
    · simp [heq]

theorem mapIdx_set {i : Nat} {f : Nat → Option Nat} {p : Nat → Prop} [DecidablePred p] (hi : p i)
    (next : List (Option Nat)) :
    ((next.set i (f i)).mapIdx fun j link => if i + 1 ≤ j ∧ p j then f j else link) =
      next.mapIdx fun j link => if i ≤ j ∧ p j then f j else link := by
  apply List.ext_getElem?
  intro j
  simp only [List.getElem?_set, List.getElem?_mapIdx]
  by_cases heq : i = j
  · subst heq
    by_cases hlength : i < next.length
    · simp [hlength, hi]
    · simp [hlength]
  · have hiff : i + 1 ≤ j ↔ i ≤ j := by omega
    simp only [heq, hiff, if_false]

theorem Heap.node?_untouched (heap : Heap K V) (other : Nat) {f : Nat → Option Nat} {p : Nat → Prop}
    [DecidablePred p] (h : ∀ j, ¬ p j) :
    heap.node? other = (heap.node? other).map fun node => { node with
      next := node.next.mapIdx fun j link => if p j then f j else link } := by
  cases heap.node? other with
  | none => rfl
  | some node => simp only [h, if_false, mapIdx_self, Option.map_some]

/-- A loop that takes a node out: on each of its levels the predecessor takes over its
link. It ends at the height of the node. -/
theorem Heap.node?_unlink {update : List Nat} {del_node height count i : Nat} (hheight : height ≤ i + count)
    (hlinked : ∀ j, i ≤ j → j < i + count →
      (heap.next (update.getD j 0) j = some del_node ↔ j < height)) (other : Nat) :
    (heap.unlink update del_node count i).node? other =
      (heap.node? other).map fun node => { node with
        next := node.next.mapIdx fun j link =>
          if i ≤ j ∧ (j < height ∧ update.getD j 0 = other) then heap.next del_node j else link } := by
  induction count generalizing heap i with
  | zero =>
    apply Heap.node?_untouched
    rintro j ⟨hle, hlt, -⟩
    omega
  | succ count ih =>
    rw [Heap.unlink]
    by_cases hi : i < height
    · have hhere := (hlinked i (Nat.le_refl i) (by omega)).mpr hi
      rw [if_neg (not_not.mpr hhere)]
      rw [@ih _ (i + 1) (by omega) fun j hle hlt => by
        rw [Heap.next_set_next_of_ne _ _ _ _ (by omega)]
        exact hlinked j (by omega) (by omega)]
      have hkept : ∀ j, i + 1 ≤ j →
          (heap.set_next (update.getD i 0) i (heap.next del_node i)).next del_node j = heap.next del_node j :=
        fun j hj => Heap.next_set_next_of_ne _ _ _ _ (by omega)
      have hagree : ∀ (next : List (Option Nat)), (next.mapIdx fun j link =>
            if i + 1 ≤ j ∧ (j < height ∧ update.getD j 0 = other) then
              (heap.set_next (update.getD i 0) i (heap.next del_node i)).next del_node j else link) =
          next.mapIdx fun j link =>
            if i + 1 ≤ j ∧ (j < height ∧ update.getD j 0 = other) then heap.next del_node j else link := by
        intro next
        congr 1
        funext j link
        by_cases hj : i + 1 ≤ j
        · rw [hkept j hj]
        · simp [hj]
      simp only [hagree]
      rw [Heap.node?_set_next]
      cases heap.node? other with
      | none => simp
      | some node =>
        by_cases heq : update.getD i 0 = other
        · simp only [if_pos heq, Option.map_some]
          rw [@mapIdx_set i (heap.next del_node) (fun j => j < height ∧ update.getD j 0 = other) _ ⟨hi, heq⟩]
        · simp only [if_neg heq, Option.map_some]
          congr 3
          funext j link
          have hiff : (i + 1 ≤ j ∧ (j < height ∧ update.getD j 0 = other)) ↔
              (i ≤ j ∧ (j < height ∧ update.getD j 0 = other)) := by
            constructor
            · rintro ⟨hle, hrest⟩
              exact ⟨by omega, hrest⟩
            · rintro ⟨hle, hlt, hpred⟩
              have hne : i ≠ j := fun hij => heq (hij ▸ hpred)
              exact ⟨by omega, hlt, hpred⟩
          simp only [hiff]
    · have hhere : heap.next (update.getD i 0) i ≠ some del_node :=
        fun hlink => hi ((hlinked i (Nat.le_refl i) (by omega)).mp hlink)
      rw [if_pos hhere]
      apply Heap.node?_untouched
      rintro j ⟨hle, hlt, -⟩
      omega

theorem reaching_cons (tower : Tower K V) (behind : List (Tower K V)) (i : Nat) :
    reaching (tower :: behind) i = if i < tower.height then some tower.address else reaching behind i := by
  simp only [reaching, List.find?_cons]
  by_cases hlevel : i < tower.height <;> simp [hlevel]

/-- The links of a node after a tower somewhere behind it has been taken out. -/
theorem mapIdx_links_removed {behind : List (Tower K V)} {height : Nat} {p : Nat → Prop} [DecidablePred p]
    (hp : ∀ i < height, i < tower.height → (p i ↔ reaching behind i = none)) :
    ((links height (behind ++ tower :: post)).mapIdx fun i link =>
      if 0 ≤ i ∧ (i < tower.height ∧ p i) then reaching post i else link) =
      links height (behind ++ post) := by
  apply List.ext_getElem?
  intro i
  rw [List.getElem?_mapIdx]
  by_cases hi : i < height
  · rw [getElem?_links _ hi, getElem?_links _ hi, Option.map_some, reaching_append, reaching_append,
      reaching_cons]
    by_cases hlevel : i < tower.height
    · cases hreach : reaching behind i with
      | none => simp [hlevel, (hp i hi hlevel).mpr hreach]
      | some address =>
        have hpi : ¬ p i := fun hpi => by simp [(hp i hi hlevel).mp hpi] at hreach
        simp [hpi]
    · simp [hlevel]
  · simp [links, hi]

/-- The last towers in front of a node point to it on its levels and nowhere else. -/
theorem Heap.Lays.linked {update : List Nat} {key : K} {value : V} {max_level i : Nat}
    (h : heap.Lays (pre ++ tower :: post))
    (hhead : heap.node? 0 = some ⟨key, value, links max_level (pre ++ tower :: post)⟩)
    (hnodup : ((pre ++ tower :: post).map Tower.address).Nodup) (hi : i < max_level)
    (hupdate : update.getD i 0 = lastReaching pre i) :
    heap.next (update.getD i 0) i = some tower.address ↔ i < tower.height := by
  rw [hupdate, h.next_lastReaching hhead hi, reaching_cons]
  constructor
  · intro hlink
    by_contra hlevel
    rw [if_neg hlevel] at hlink
    rw [List.map_append, List.map_cons, List.nodup_append, List.nodup_cons] at hnodup
    obtain ⟨other, hfind, haddress⟩ := Option.map_eq_some_iff.mp hlink
    exact hnodup.2.1.1 (haddress ▸ List.mem_map_of_mem (List.mem_of_find?_eq_some hfind))
  · intro hlevel
    rw [if_pos hlevel]

theorem Heap.node?_free (heap : Heap K V) {address other : Nat} (h : other ≠ address) :
    Heap.node? (heap.set address none) other = heap.node? other := by
  simp [Heap.node?, List.getElem?_set_ne h.symm]

theorem Heap.length_unlink (heap : Heap K V) (update : List Nat) (del_node count i : Nat) :
    (heap.unlink update del_node count i).length = heap.length := by
  induction count generalizing heap i with
  | zero => rfl
  | succ count ih =>
    rw [Heap.unlink]
    split
    · rfl
    · rw [ih, Heap.set_next, List.length_modify]

/-- A tower is taken out from between the others. -/
theorem Heap.Lays.unlink {update : List Nat} {key : K} {value : V} {max_level count : Nat}
    (h : heap.Lays (pre ++ tower :: post))
    (hhead : heap.node? 0 = some ⟨key, value, links max_level (pre ++ tower :: post)⟩)
    (hnodup : ((pre ++ tower :: post).map Tower.address).Nodup)
    (hnonzero : ∀ other ∈ pre ++ tower :: post, other.address ≠ 0)
    (hheight : tower.height ≤ count) (hcount : count ≤ max_level)
    (hupdate : ∀ i < count, update.getD i 0 = lastReaching pre i) :
    Heap.node? ((heap.unlink update tower.address count 0).set tower.address none) 0 =
        some ⟨key, value, links max_level (pre ++ post)⟩ ∧
      Heap.Lays ((heap.unlink update tower.address count 0).set tower.address none) (pre ++ post) := by
  have hothers := @Heap.node?_unlink K V heap update tower.address tower.height count 0 (by omega)
    fun i _ hi => h.linked hhead hnodup (by omega) (hupdate i (by omega))
  have hbehind : ∀ i < tower.height, heap.next tower.address i = reaching post i :=
    fun i hi => Heap.next_of_node h.append.1 hi
  rw [List.map_append, List.map_cons, List.nodup_append, List.nodup_cons] at hnodup
  obtain ⟨hprenodup, ⟨hfresh, -⟩, hdisjoint⟩ := hnodup
  have hnotpre : tower.address ∉ pre.map Tower.address := fun hmem =>
    hdisjoint _ hmem _ List.mem_cons_self rfl
  have hlinks : ∀ (height other : Nat) (behind : List (Tower K V)),
      (∀ i < height, i < tower.height → (update.getD i 0 = other ↔ reaching behind i = none)) →
      ((links height (behind ++ tower :: post)).mapIdx fun i link =>
        if 0 ≤ i ∧ (i < tower.height ∧ update.getD i 0 = other) then heap.next tower.address i else link) =
        links height (behind ++ post) := by
    intro height other behind hp
    refine Eq.trans ?_ (mapIdx_links_removed hp)
    congr 1
    funext i link
    by_cases hi : i < tower.height
    · rw [hbehind i hi]
    · simp [hi]
  refine ⟨?_, ?_⟩
  · rw [Heap.node?_free _ (hnonzero tower (by simp)).symm, hothers, hhead, Option.map_some, hlinks]
    intro i _ hi
    rw [hupdate i (by omega)]
    exact lastReaching_eq_zero fun other hother => hnonzero other (by simp [hother])
  · have hlays : ∀ behind front, pre = front ++ behind →
        Heap.Lays ((heap.unlink update tower.address count 0).set tower.address none) (behind ++ post) := by
      intro behind
      induction behind with
      | nil =>
        intro front _
        refine h.append.2.congr ?_
        intro other hother
        have hne : other.address ≠ tower.address := fun heq => hfresh (heq ▸ List.mem_map_of_mem hother)
        rw [Heap.node?_free _ hne, hothers]
        refine (Heap.node?_untouched heap other.address ?_).symm
        rintro i ⟨-, hi, heq⟩
        rw [hupdate i (by omega)] at heq
        rcases lastReaching_mem pre i with hhere | hmem
        · exact hnonzero other (by simp [hother]) (heq.symm.trans hhere)
        · exact hdisjoint _ hmem _ (List.mem_cons_of_mem _ (List.mem_map_of_mem hother)) heq
      | cons first behind ih =>
        intro front hsplit
        have hmem : first ∈ pre := by simp [hsplit]
        refine ⟨?_, ih (front ++ [first]) (by simp [hsplit])⟩
        have hne : first.address ≠ tower.address := fun heq => hnotpre (heq ▸ List.mem_map_of_mem hmem)
        have hlater : first.address ∉ behind.map Tower.address := by
          rw [hsplit, List.map_append, List.map_cons] at hprenodup
          exact (List.nodup_cons.mp (List.nodup_append.mp hprenodup).2.1).1
        have hold := h
        rw [hsplit, List.append_assoc, List.cons_append] at hold
        rw [Heap.node?_free _ hne, hothers, hold.append.1, Option.map_some, hlinks]
        · rfl
        · intro i hi hlevel
          rw [hupdate i (by omega), hsplit]
          exact lastReaching_eq_address hlater hi
    exact hlays pre [] rfl

/-- Lowering the level stops above every tower. -/
theorem Heap.lowered_bounds {key : K} {value : V} {max_level level : Nat}
    (hhead : heap.node? 0 = some ⟨key, value, links max_level towers⟩) (hlevel : level ≤ max_level)
    (hheights : ∀ tower ∈ towers, tower.height ≤ level) :
    heap.lowered level ≤ level ∧ ∀ tower ∈ towers, tower.height ≤ heap.lowered level := by
  induction level with
  | zero => exact ⟨Nat.le_refl _, hheights⟩
  | succ level ih =>
    rw [Heap.lowered]
    split
    · rename_i hnone
      rw [Heap.next_of_node hhead (by omega)] at hnone
      obtain ⟨hle, hrest⟩ := ih (by omega) (reaching_eq_none.mp hnone)
      exact ⟨by omega, hrest⟩
    · exact ⟨Nat.le_refl _, hheights⟩

variable [Ord K] {self : SkipList K V}

/-- A tower taken out from between the smaller and the greater ones. -/
theorem SkipList.Holds.remove {update : List Nat} (h : self.Holds (pre ++ tower :: post))
    (hupdate : ∀ j < self.current_level, update.getD j 0 = lastReaching pre j) {nodes : Heap K V}
    (hnodes : nodes = (self.nodes.unlink update tower.address self.current_level 0).set tower.address none) :
    SkipList.Holds { self with
      current_level := nodes.lowered self.current_level
      nodes := nodes
      node_count := self.node_count - 1 } (pre ++ post) := by
  obtain ⟨headKey, headValue, hhead⟩ := h.head
  have hsub : (pre ++ post).Sublist (pre ++ tower :: post) :=
    List.Sublist.append_left (List.sublist_cons_self _ _) pre
  obtain ⟨hhead', hlays'⟩ := h.lays.unlink hhead h.addresses (fun other hother => (h.allocated other hother).1)
    (h.heights tower (by simp)).2 h.current_level hupdate
  rw [← hnodes] at hhead' hlays'
  obtain ⟨hlower, hheights⟩ := Heap.lowered_bounds hhead' h.current_level
    fun other hother => (h.heights other (hsub.subset hother)).2
  have hlength : nodes.length = self.nodes.length := by
    rw [hnodes, List.length_set, Heap.length_unlink]
  refine ⟨h.max_level, hlower.trans h.current_level, ⟨headKey, headValue, hhead'⟩, hlays', ?_,
    h.addresses.sublist (hsub.map _), ?_, h.sorted.sublist hsub, ?_, ?_⟩
  · exact fun other hother => ⟨(h.heights other (hsub.subset hother)).1, hheights other hother⟩
  · rw [hlength]
    exact fun other hother => h.allocated other (hsub.subset hother)
  · change self.node_count - 1 = _
    have hone : (pre ++ tower :: post).length = (pre ++ post).length + 1 := by
      simp only [List.length_append, List.length_cons]
      omega
    rw [h.count, hone, Int32.ofNat_add]
    exact Int32.add_sub_cancel _ _
  · have hold := h.length
    rw [hlength]
    simp only [List.length_append, List.length_cons] at hold ⊢
    omega

variable [TransOrd K] [LawfulEqOrd K] {map : ExtTreeMap K V}

theorem SkipList.Represents.delete_element (h : self.Represents map) (key : K) :
    ∃ list, self.delete_element key = some (list, map.contains key) ∧ list.Represents (map.erase key) := by
  have hsearch := h.search_element_eq key
  obtain ⟨towers, hholds, hentries⟩ := h
  obtain ⟨pre, post, hsplit⟩ := hholds.splits key
  obtain ⟨curr, update, hloop, hbottom, hlength, hupdate⟩ := hholds.predecessors_eq hsplit
  have hmatching := hholds.matching_eq hsplit hbottom
  rw [hholds.search_element_eq hsplit, Option.some_inj] at hsearch
  obtain ⟨rfl, -, -⟩ := hsplit
  by_cases hfound : ∃ tower, post.head? = some tower ∧ compare tower.key key = .eq
  · obtain ⟨tower, hhead, heq⟩ := hfound
    obtain ⟨rest, rfl⟩ : ∃ rest, post = tower :: rest := ⟨post.tail, (List.cons_head?_tail hhead).symm⟩
    have hkey : tower.key = key := LawfulEqCmp.eq_of_compare heq
    have hpresent : map.contains key = true := by
      rw [ExtTreeMap.contains_eq_isSome_getElem?, ← hsearch]
      simp [heq]
    have hlinked : ∀ j < self.current_level, update.getD j 0 = lastReaching pre j := by
      intro j hj
      rw [List.getD_eq_getElem?_getD, hupdate j (hj.trans_le hholds.current_level), Option.getD_some]
    refine ⟨_, ?_, _, hholds.remove hlinked rfl, ?_⟩
    · simp only [SkipList.delete_element, hloop, hmatching, List.head?_cons, heq, Option.bind_eq_bind,
        Option.bind_some, if_true, hpresent]
      rfl
    · rw [List.map_append, List.map_cons, Tower.entry, hkey] at hentries
      rw [toList_erase_of_mem hentries.symm, List.map_append]
  · have hmiss : ∀ tower, post.head? = some tower → compare tower.key key ≠ .eq :=
      fun tower hhead heq => hfound ⟨tower, hhead, heq⟩
    have hnone : (post.head?.bind fun tower =>
        if compare tower.key key = .eq then some tower.address else none) = none := by
      rw [Option.bind_eq_none_iff]
      intro tower hhead
      simp [hmiss tower hhead]
    have hempty : map[key]? = none := by
      rw [← hsearch, Option.bind_eq_none_iff]
      intro tower hhead
      simp [hmiss tower hhead]
    have habsent : map.contains key = false := by
      rw [ExtTreeMap.contains_eq_isSome_getElem?, hempty]
      rfl
    refine ⟨self, ?_, pre ++ post, hholds, ?_⟩
    · simp only [SkipList.delete_element, hloop, hmatching, hnone, Option.bind_eq_bind, Option.bind_some,
        habsent]
      rfl
    · rw [hentries]
      congr 1
      apply ExtTreeMap.ext_getElem?
      intro other
      rw [ExtTreeMap.getElem?_erase]
      by_cases heq : compare key other = .eq
      · rw [if_pos heq, ← LawfulEqCmp.eq_of_compare heq, hempty]
      · rw [if_neg heq]

end

end NovaKV
