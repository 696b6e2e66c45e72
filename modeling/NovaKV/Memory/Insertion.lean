import NovaKV.Memory.Towers

open Std
open NovaKV.Lib

namespace NovaKV

section

variable {K V : Type} {heap heap' : Heap K V} {pre post towers : List (Tower K V)}

theorem Heap.node?_modify (heap : Heap K V) (address other : Nat) (f : Node K V → Node K V) :
    Heap.node? (heap.modify address (Option.map f)) other =
      if address = other then (heap.node? other).map f else heap.node? other := by
  rw [Heap.node?, List.getElem?_modify]
  split
  · rename_i heq
    subst heq
    cases h : heap[address]? with
    | none => simp [Heap.node?, h]
    | some node => simp [Heap.node?, h]
  · cases h : heap[other]? <;> simp [Heap.node?, h]

theorem Heap.node?_set_next (heap : Heap K V) (address i : Nat) (link : Option Nat) (other : Nat) :
    (heap.set_next address i link).node? other =
      if address = other then (heap.node? other).map fun node => { node with next := node.next.set i link }
      else heap.node? other :=
  heap.node?_modify address other _

theorem Heap.Lays.congr (h : heap.Lays towers)
    (hsame : ∀ tower ∈ towers, heap'.node? tower.address = heap.node? tower.address) : heap'.Lays towers := by
  induction towers with
  | nil => trivial
  | cons tower towers ih =>
    refine ⟨(hsame tower List.mem_cons_self).trans h.1, ih h.2 ?_⟩
    exact fun other hother => hsame other (List.mem_cons_of_mem _ hother)

theorem reaching_overwrite (tower : Tower K V) (value : V) (i : Nat) :
    reaching (pre ++ { tower with value := value } :: post) i = reaching (pre ++ tower :: post) i := by
  rw [reaching_append, reaching_append]
  congr 1
  simp only [reaching, List.find?_cons]
  cases decide (i < tower.height) <;> rfl

/-- Overwriting the value of one node. -/
theorem Heap.Lays.overwrite {tower : Tower K V} (value : V) (h : heap.Lays (pre ++ tower :: post))
    (hnodup : ((pre ++ tower :: post).map Tower.address).Nodup) :
    Heap.Lays (heap.modify tower.address (Option.map fun node => { node with value := value }))
      (pre ++ { tower with value := value } :: post) := by
  induction pre with
  | nil =>
    have hfresh := (List.nodup_cons.mp hnodup).1
    refine ⟨?_, h.2.congr ?_⟩
    · rw [Heap.node?_modify, if_pos rfl, h.1]
      rfl
    · intro other hother
      rw [Heap.node?_modify, if_neg]
      rintro heq
      exact hfresh (heq ▸ List.mem_map_of_mem hother)
  | cons first pre ih =>
    obtain ⟨hfirst, hrest⟩ := List.nodup_cons.mp hnodup
    refine ⟨?_, ih h.2 hrest⟩
    rw [Heap.node?_modify, if_neg, h.1]
    · simp [links, reaching_overwrite]
    · rintro heq
      exact hfirst (by simp [heq])

theorem set_map_range {level k : Nat} (f : Nat → Option Nat) :
    ((List.range level).map fun i => if i < k then f i else none).set k (f k) =
      (List.range level).map fun i => if i < k + 1 then f i else none := by
  apply List.ext_getElem?
  intro i
  simp only [List.getElem?_set, List.length_map, List.length_range, List.getElem?_map]
  by_cases hk : k = i
  · subst hk
    by_cases hlevel : k < level
    · simp [hlevel]
    · simp [hlevel]
  · have hiff : i ≤ k ↔ i < k := by omega
    by_cases hlevel : i < level
    · simp [hk, hlevel, hiff]
    · simp [hk, hlevel]

theorem mapIdx_self (next : List (Option Nat)) : (next.mapIdx fun _ link => link) = next :=
  List.ext_getElem? fun i => by simp [List.getElem?_mapIdx]

theorem set_mapIdx {k new_node : Nat} (p : Nat → Prop) [DecidablePred p] (hk : p k)
    (next : List (Option Nat)) :
    (next.mapIdx fun i link => if i < k ∧ p i then some new_node else link).set k (some new_node) =
      next.mapIdx fun i link => if i < k + 1 ∧ p i then some new_node else link := by
  apply List.ext_getElem?
  intro i
  simp only [List.getElem?_set, List.length_mapIdx, List.getElem?_mapIdx]
  by_cases heq : k = i
  · subst heq
    by_cases hlength : k < next.length
    · simp [hlength, hk]
    · simp [hlength]
  · have hiff : i < k + 1 ↔ i < k := by omega
    simp only [heq, hiff, if_false]

/-- A loop of links: each level of the new node takes over the link of its
predecessor, which then points to the new node. -/
theorem Heap.node?_link {update : List Nat} {new_node level : Nat} {key : K} {value : V}
    (hnew : heap.node? new_node = some ⟨key, value, List.replicate level none⟩)
    (hupdate : ∀ i < level, update.getD i 0 ≠ new_node) :
    (heap.link update new_node level).node? new_node =
        some ⟨key, value, (List.range level).map fun i => heap.next (update.getD i 0) i⟩ ∧
      ∀ other, other ≠ new_node → (heap.link update new_node level).node? other =
        (heap.node? other).map fun node => { node with
          next := node.next.mapIdx fun i link =>
            if i < level ∧ update.getD i 0 = other then some new_node else link } := by
  have hloop : ∀ k ≤ level, ∀ linked : Heap K V, linked = (List.range k).foldl (fun heap i =>
        let heap := heap.set_next new_node i (heap.next (update.getD i 0) i)
        heap.set_next (update.getD i 0) i (some new_node)) heap →
      linked.node? new_node = some ⟨key, value, (List.range level).map fun i =>
          if i < k then heap.next (update.getD i 0) i else none⟩ ∧
        ∀ other, other ≠ new_node → linked.node? other =
          (heap.node? other).map fun node => { node with
            next := node.next.mapIdx fun i link =>
              if i < k ∧ update.getD i 0 = other then some new_node else link } := by
    intro k
    induction k with
    | zero =>
      intro _ linked hlinked
      rw [hlinked]
      refine ⟨?_, ?_⟩
      · simp [hnew]
      · intro other _
        cases h : heap.node? other <;> simp [h, mapIdx_self]
    | succ k ih =>
      rintro hk _ rfl
      rw [List.range_succ, List.foldl_append, List.foldl_cons, List.foldl_nil]
      obtain ⟨hnode, hothers⟩ := ih (by omega) _ rfl
      generalize (List.range k).foldl _ heap = linked at hnode hothers ⊢
      have hpred := hupdate k (by omega)
      have hlink : linked.next (update.getD k 0) k = heap.next (update.getD k 0) k := by
        rw [Heap.next, hothers _ hpred, Heap.next]
        cases heap.node? (update.getD k 0) with
        | none => rfl
        | some node => simp
      refine ⟨?_, ?_⟩
      · rw [Heap.node?_set_next, if_neg hpred, Heap.node?_set_next, if_pos rfl, hnode, hlink, Option.map_some,
          set_map_range]
      · intro other hother
        rw [Heap.node?_set_next, Heap.node?_set_next, if_neg hother.symm, hothers other hother]
        cases heap.node? other with
        | none => simp
        | some node =>
          by_cases heq : update.getD k 0 = other
          · simp only [if_pos heq, Option.map_some]
            rw [set_mapIdx (fun i => update.getD i 0 = other) heq]
          · simp only [if_neg heq, Option.map_some]
            congr 3
            funext i link
            have hiff : i < k + 1 ∧ update.getD i 0 = other ↔ i < k ∧ update.getD i 0 = other := by
              constructor
              · rintro ⟨hlt, rfl⟩
                refine ⟨?_, rfl⟩
                by_contra hge
                exact heq (by rw [show k = i by omega])
              · rintro ⟨hlt, rfl⟩
                exact ⟨by omega, rfl⟩
            simp only [hiff]
  obtain ⟨hnode, hothers⟩ := hloop level (Nat.le_refl _) _ rfl
  refine ⟨?_, hothers⟩
  rw [Heap.link, hnode]
  congr 2
  apply List.map_congr_left
  intro i hi
  simp [List.mem_range.mp hi]

/-- A tower is the last one to reach a level unless one behind it does. -/
theorem lastReaching_eq_address {front behind : List (Tower K V)} {tower : Tower K V} {i : Nat}
    (hfresh : tower.address ∉ behind.map Tower.address) (hi : i < tower.height) :
    lastReaching (front ++ tower :: behind) i = tower.address ↔ reaching behind i = none := by
  constructor
  · intro hlast
    cases hbehind : reaching behind.reverse i with
    | none =>
      rw [reaching_eq_none] at hbehind ⊢
      exact fun other hother => hbehind other (List.mem_reverse.mpr hother)
    | some address =>
      rw [lastReaching, List.reverse_append, List.reverse_cons, List.append_assoc, reaching_append, hbehind] at hlast
      obtain ⟨other, hfind, rfl⟩ := Option.map_eq_some_iff.mp hbehind
      have hother := List.mem_reverse.mp (List.mem_of_find?_eq_some hfind)
      exact absurd (List.mem_map.mpr ⟨other, hother, hlast⟩) hfresh
  · intro hnone
    rw [show front ++ tower :: behind = (front ++ [tower]) ++ behind by simp,
      lastReaching_append_of_le (reaching_eq_none.mp hnone), lastReaching_concat hi]

theorem lastReaching_mem (towers : List (Tower K V)) (i : Nat) :
    lastReaching towers i = 0 ∨ lastReaching towers i ∈ towers.map Tower.address := by
  rw [lastReaching]
  cases h : reaching towers.reverse i with
  | none => exact .inl rfl
  | some address =>
    obtain ⟨tower, hfind, rfl⟩ := Option.map_eq_some_iff.mp h
    exact .inr (List.mem_map_of_mem (List.mem_reverse.mp (List.mem_of_find?_eq_some hfind)))

theorem lastReaching_eq_zero {i : Nat} (h : ∀ tower ∈ towers, tower.address ≠ 0) :
    lastReaching towers i = 0 ↔ reaching towers i = none := by
  constructor
  · intro hzero
    rw [reaching_eq_none]
    intro tower htower
    by_contra hlt
    cases hreach : reaching towers.reverse i with
    | none => exact hlt (reaching_eq_none.mp hreach tower (List.mem_reverse.mpr htower))
    | some address =>
      rw [lastReaching, hreach] at hzero
      obtain ⟨other, hfind, rfl⟩ := Option.map_eq_some_iff.mp hreach
      exact h other (List.mem_reverse.mp (List.mem_of_find?_eq_some hfind)) hzero
  · intro hnone
    exact @lastReaching_append_of_le K V [] towers i (reaching_eq_none.mp hnone)

/-- The links of a node after a tower has been put in somewhere behind it. -/
theorem mapIdx_links {behind : List (Tower K V)} {tower : Tower K V} {height : Nat} {p : Nat → Prop}
    [DecidablePred p] (hp : ∀ i < height, i < tower.height → (p i ↔ reaching behind i = none)) :
    ((links height (behind ++ post)).mapIdx fun i link =>
      if i < tower.height ∧ p i then some tower.address else link) =
      links height (behind ++ tower :: post) := by
  apply List.ext_getElem?
  intro i
  rw [List.getElem?_mapIdx]
  by_cases hi : i < height
  · rw [getElem?_links _ hi, getElem?_links _ hi, Option.map_some, reaching_append, reaching_append]
    have hhead : reaching (tower :: post) i =
        if i < tower.height then some tower.address else reaching post i := by
      simp only [reaching, List.find?_cons]
      by_cases hlevel : i < tower.height <;> simp [hlevel]
    rw [hhead]
    by_cases hlevel : i < tower.height
    · cases hreach : reaching behind i with
      | none => simp [hlevel, (hp i hi hlevel).mpr hreach]
      | some address =>
        have hpi : ¬ p i := fun hpi => by simp [(hp i hi hlevel).mp hpi] at hreach
        simp [hpi]
    · simp [hlevel]
  · simp [links, hi]

/-- The link of the last tower that reaches a level, or of the head. -/
theorem Heap.Lays.next_lastReaching {key : K} {value : V} {max_level i : Nat}
    (h : heap.Lays (pre ++ post)) (hhead : heap.node? 0 = some ⟨key, value, links max_level (pre ++ post)⟩)
    (hi : i < max_level) : heap.next (lastReaching pre i) i = reaching post i := by
  cases hreach : reaching pre.reverse i with
  | none =>
    have hnone : reaching pre i = none := by
      rw [reaching_eq_none] at hreach ⊢
      exact fun tower htower => hreach tower (List.mem_reverse.mpr htower)
    rw [lastReaching, hreach, Option.getD_none, Heap.next_of_node hhead hi, reaching_append, hnone, Option.none_or]
  | some address =>
    obtain ⟨tower, hfind, rfl⟩ := Option.map_eq_some_iff.mp hreach
    obtain ⟨hheight, front, back, hsplit, hback⟩ := List.find?_eq_some_iff_append.mp hfind
    have hpre : pre = back.reverse ++ tower :: front.reverse := by
      rw [← List.reverse_reverse pre, hsplit]
      simp
    have hnone : reaching front.reverse i = none := by
      rw [reaching_eq_none]
      intro other hother
      simpa using hback other (List.mem_reverse.mp hother)
    rw [hpre, List.append_assoc, List.cons_append] at h
    rw [lastReaching, hreach, Option.getD_some, Heap.next_of_node h.append.1 (by simpa using hheight),
      reaching_append, hnone, Option.none_or]

/-- A new tower is linked in between those in front of it and those behind it. -/
theorem Heap.Lays.link {update : List Nat} {tower : Tower K V} {key : K} {value : V} {max_level : Nat}
    (h : heap.Lays (pre ++ post)) (hhead : heap.node? 0 = some ⟨key, value, links max_level (pre ++ post)⟩)
    (hnodup : ((pre ++ tower :: post).map Tower.address).Nodup)
    (hnonzero : ∀ other ∈ pre ++ tower :: post, other.address ≠ 0) (hheight : tower.height ≤ max_level)
    (hnew : heap.node? tower.address = some ⟨tower.key, tower.value, List.replicate tower.height none⟩)
    (hupdate : ∀ i < tower.height, update.getD i 0 = lastReaching pre i) :
    (heap.link update tower.address tower.height).node? 0 =
        some ⟨key, value, links max_level (pre ++ tower :: post)⟩ ∧
      (heap.link update tower.address tower.height).Lays (pre ++ tower :: post) := by
  rw [List.map_append, List.map_cons, List.nodup_append, List.nodup_cons] at hnodup
  obtain ⟨hprenodup, ⟨hfresh, -⟩, hdisjoint⟩ := hnodup
  have hzero : tower.address ≠ 0 := hnonzero tower (by simp)
  have hnotpre : tower.address ∉ pre.map Tower.address := fun hmem =>
    hdisjoint _ hmem _ List.mem_cons_self rfl
  have hpred : ∀ i < tower.height, update.getD i 0 ≠ tower.address := by
    intro i hi heq
    rw [hupdate i hi] at heq
    rcases lastReaching_mem pre i with hhere | hmem
    · exact hzero (heq.symm.trans hhere)
    · exact hnotpre (heq ▸ hmem)
  obtain ⟨hnode, hothers⟩ := Heap.node?_link hnew hpred
  refine ⟨?_, ?_⟩
  · rw [hothers 0 hzero.symm, hhead, Option.map_some, mapIdx_links]
    intro i _ hi
    rw [hupdate i hi]
    exact lastReaching_eq_zero fun other hother => hnonzero other (by simp [hother])
  · have hlays : ∀ behind front, pre = front ++ behind →
        (heap.link update tower.address tower.height).Lays (behind ++ tower :: post) := by
      intro behind
      induction behind with
      | nil =>
        intro front hsplit
        refine ⟨?_, ?_⟩
        · rw [hnode]
          congr 2
          apply List.map_congr_left
          intro i hi
          rw [List.mem_range] at hi
          rw [hupdate i hi]
          exact h.next_lastReaching hhead (hi.trans_le hheight)
        · refine h.append.congr ?_
          intro other hother
          have hne : other.address ≠ tower.address := fun heq => hfresh (heq ▸ List.mem_map_of_mem hother)
          have huntouched : ∀ i, ¬ (i < tower.height ∧ update.getD i 0 = other.address) := by
            rintro i ⟨hi, heq⟩
            rw [hupdate i hi] at heq
            rcases lastReaching_mem pre i with hhere | hmem
            · exact hnonzero other (by simp [hother]) (heq.symm.trans hhere)
            · exact hdisjoint _ hmem _ (List.mem_cons_of_mem _ (List.mem_map_of_mem hother)) heq
          rw [hothers _ hne]
          cases heap.node? other.address with
          | none => rfl
          | some node => simp only [huntouched, if_false, mapIdx_self, Option.map_some]
      | cons first behind ih =>
        intro front hsplit
        have hmem : first ∈ pre := by simp [hsplit]
        refine ⟨?_, ih (front ++ [first]) (by simp [hsplit])⟩
        have hne : first.address ≠ tower.address := fun heq => hnotpre (heq ▸ List.mem_map_of_mem hmem)
        have hbehind : first.address ∉ behind.map Tower.address := by
          rw [hsplit, List.map_append, List.map_cons] at hprenodup
          exact (List.nodup_cons.mp (List.nodup_append.mp hprenodup).2.1).1
        have hold := h
        rw [hsplit, List.append_assoc, List.cons_append] at hold
        have hlast : ∀ i < first.height, i < tower.height →
            (update.getD i 0 = first.address ↔ reaching behind i = none) := by
          intro i hi hlevel
          rw [hupdate i hlevel, hsplit]
          exact lastReaching_eq_address hbehind hi
        rw [hothers _ hne, hold.append.1, Option.map_some, mapIdx_links hlast]
        rfl
    exact hlays pre [] rfl

theorem Heap.node?_concat {heap : Heap K V} (node : Node K V) {address : Nat} (h : address < heap.length) :
    Heap.node? (heap ++ [some node]) address = heap.node? address := by
  simp [Heap.node?, List.getElem?_append_left h]

theorem Heap.length_link (heap : Heap K V) (update : List Nat) (new_node level : Nat) :
    (heap.link update new_node level).length = heap.length := by
  unfold Heap.link
  induction level with
  | zero => rfl
  | succ level ih =>
    rw [List.range_succ, List.foldl_append, List.foldl_cons, List.foldl_nil]
    simp only [Heap.set_next, List.length_modify]
    exact ih

variable [Ord K] {self : SkipList K V}

/-- Overwriting the value of a key that is there. -/
theorem SkipList.Holds.overwrite {pre rest : List (Tower K V)} {tower : Tower K V} (value : V)
    (h : self.Holds (pre ++ tower :: rest)) :
    SkipList.Holds { self with
      nodes := self.nodes.modify tower.address (Option.map fun node => { node with value := value }) }
      (pre ++ { tower with value := value } :: rest) := by
  have hmem : ∀ other ∈ pre ++ { tower with value := value } :: rest,
      ∃ before ∈ pre ++ tower :: rest, before.address = other.address ∧ before.height = other.height := by
    intro other hother
    simp only [List.mem_append, List.mem_cons] at hother ⊢
    rcases hother with hpre | rfl | hrest
    · exact ⟨other, .inl hpre, rfl, rfl⟩
    · exact ⟨tower, .inr (.inl rfl), rfl, rfl⟩
    · exact ⟨other, .inr (.inr hrest), rfl, rfl⟩
  obtain ⟨key, old, hhead⟩ := h.head
  have hzero : tower.address ≠ 0 := (h.allocated tower (by simp)).1
  refine ⟨h.max_level, h.current_level, ⟨key, old, ?_⟩, h.lays.overwrite value h.addresses, ?_, ?_, ?_, ?_, ?_, ?_⟩
  · rw [Heap.node?_modify, if_neg hzero, hhead]
    simp [links, reaching_overwrite]
  · intro other hother
    obtain ⟨before, hbefore, -, hheight⟩ := hmem other hother
    exact hheight ▸ h.heights before hbefore
  · simpa using h.addresses
  · intro other hother
    obtain ⟨before, hbefore, haddress, -⟩ := hmem other hother
    rw [List.length_modify]
    exact haddress ▸ h.allocated before hbefore
  · have hsorted := h.sorted
    rw [List.pairwise_append, List.pairwise_cons] at hsorted ⊢
    refine ⟨hsorted.1, hsorted.2.1, ?_⟩
    intro a ha b hb
    rcases List.mem_cons.mp hb with rfl | hb
    · exact hsorted.2.2 a ha tower List.mem_cons_self
    · exact hsorted.2.2 a ha b (List.mem_cons_of_mem _ hb)
  · simpa using h.count
  · simpa using h.length

/-- A new tower between the smaller and the greater ones. -/
theorem SkipList.Holds.insert {pre post : List (Tower K V)} {key : K} {value : V} {level : Nat}
    {update : List Nat} (h : self.Holds (pre ++ post))
    (hpre : ∀ tower ∈ pre, compare tower.key key = .lt) (hpost : ∀ tower ∈ post, compare key tower.key = .lt)
    (hpos : 0 < level) (hlevel : level ≤ self.max_level)
    (hupdate : ∀ j < level, update.getD j 0 = lastReaching pre j) :
    SkipList.Holds { self with
      current_level := max self.current_level level
      nodes := Heap.link (self.nodes ++ [some ⟨key, value, List.replicate level none⟩]) update
        self.nodes.length level
      node_count := self.node_count + 1 }
      (pre ++ ⟨self.nodes.length, level, key, value⟩ :: post) := by
  obtain ⟨headKey, headValue, hhead⟩ := h.head
  have hnonempty : 0 < self.nodes.length := (Nat.zero_le _).trans_lt h.length
  let node : Node K V := ⟨key, value, List.replicate level none⟩
  let tower : Tower K V := ⟨self.nodes.length, level, key, value⟩
  have hmem : ∀ other, other ∈ pre ++ tower :: post ↔ other = tower ∨ other ∈ pre ++ post := by
    intro other
    simp only [List.mem_append, List.mem_cons]
    tauto
  have hnodup : ((pre ++ tower :: post).map Tower.address).Nodup := by
    have hperm : ((pre ++ tower :: post).map Tower.address).Perm
        (self.nodes.length :: (pre ++ post).map Tower.address) := List.perm_middle.map _
    rw [hperm.nodup_iff, List.nodup_cons]
    refine ⟨?_, h.addresses⟩
    intro hused
    obtain ⟨other, hother, haddress⟩ := List.mem_map.mp hused
    exact absurd (h.allocated other hother).2 (by rw [haddress]; exact Nat.lt_irrefl _)
  have hnonzero : ∀ other ∈ pre ++ tower :: post, other.address ≠ 0 := by
    intro other hother
    rcases (hmem other).mp hother with rfl | hold
    · exact hnonempty.ne'
    · exact (h.allocated other hold).1
  have hnew : Heap.node? (self.nodes ++ [some node]) tower.address = some node := by
    simp [Heap.node?, tower]
  have hlays : Heap.Lays (self.nodes ++ [some node]) (pre ++ post) := h.lays.congr fun other hother =>
    Heap.node?_concat node (h.allocated other hother).2
  obtain ⟨hhead', hlays'⟩ := Heap.Lays.link hlays ((Heap.node?_concat node hnonempty).trans hhead) hnodup
    hnonzero hlevel hnew hupdate
  have hlength : (Heap.link (self.nodes ++ [some node]) update self.nodes.length level).length =
      self.nodes.length + 1 := by
    rw [Heap.length_link, List.length_append]
    rfl
  refine ⟨h.max_level, Nat.max_le.mpr ⟨h.current_level, hlevel⟩, ⟨headKey, headValue, hhead'⟩, hlays', ?_,
    hnodup, ?_, ?_, ?_, ?_⟩
  · intro other hother
    rcases (hmem other).mp hother with rfl | hold
    · exact ⟨hpos, Nat.le_max_right _ _⟩
    · exact ⟨(h.heights other hold).1, (h.heights other hold).2.trans (Nat.le_max_left _ _)⟩
  · intro other hother
    refine ⟨hnonzero other hother, ?_⟩
    rw [hlength]
    rcases (hmem other).mp hother with rfl | hold
    · exact Nat.lt_succ_self _
    · exact (h.allocated other hold).2.trans (Nat.lt_succ_self _)
  · have hsorted := h.sorted
    rw [List.pairwise_append] at hsorted ⊢
    refine ⟨hsorted.1, List.pairwise_cons.mpr ⟨hpost, hsorted.2.1⟩, ?_⟩
    intro a ha b hb
    rcases List.mem_cons.mp hb with rfl | hb
    · exact hpre a ha
    · exact hsorted.2.2 a ha b hb
  · change self.node_count + 1 = _
    have hone : (pre ++ tower :: post).length = (pre ++ post).length + 1 := by
      simp only [List.length_append, List.length_cons]
      omega
    rw [h.count, hone, Int32.ofNat_add]
    rfl
  · have hold := h.length
    rw [hlength]
    simp only [List.length_append, List.length_cons] at hold ⊢
    omega

end

end NovaKV
