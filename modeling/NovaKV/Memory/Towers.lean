import NovaKV.Memory.SkipList

open Std
open NovaKV.Lib

namespace NovaKV

/-- A node as it appears from outside: where it is, how many levels it has, and its
entry. -/
structure Tower (K V : Type) where
  address : Nat
  height : Nat
  key : K
  value : V

section

variable {K V : Type}

/-- The first tower that reaches level `i`. -/
def reaching (towers : List (Tower K V)) (i : Nat) : Option Nat :=
  (towers.find? fun tower => i < tower.height).map Tower.address

/-- The pointers of a node in front of some towers: on each level the first one that
is high enough. -/
def links (height : Nat) (behind : List (Tower K V)) : List (Option Nat) :=
  (List.range height).map (reaching behind)

/-- The heap holds some towers, each linked to those behind it. -/
def Heap.Lays (heap : Heap K V) : List (Tower K V) → Prop
  | [] => True
  | tower :: behind =>
    heap.node? tower.address = some ⟨tower.key, tower.value, links tower.height behind⟩ ∧
      heap.Lays behind

/-- The last tower that reaches level `i`, or the head. -/
def lastReaching (towers : List (Tower K V)) (i : Nat) : Nat := (reaching towers.reverse i).getD 0

theorem getElem?_links {height i : Nat} (behind : List (Tower K V)) (h : i < height) :
    (links height behind)[i]? = some (reaching behind i) := by
  simp [links, h]

theorem reaching_append (first second : List (Tower K V)) (i : Nat) :
    reaching (first ++ second) i = (reaching first i).or (reaching second i) := by
  simp only [reaching, List.find?_append]
  cases first.find? fun tower => i < tower.height <;> rfl

theorem reaching_eq_none {towers : List (Tower K V)} {i : Nat} :
    reaching towers i = none ↔ ∀ tower ∈ towers, tower.height ≤ i := by
  simp [reaching]

theorem lastReaching_append_of_le {first second : List (Tower K V)} {i : Nat}
    (h : ∀ tower ∈ second, tower.height ≤ i) : lastReaching (first ++ second) i = lastReaching first i := by
  rw [lastReaching, List.reverse_append, reaching_append,
    reaching_eq_none.mpr fun tower htower => h tower (List.mem_reverse.mp htower)]
  rfl

theorem lastReaching_concat {first : List (Tower K V)} {tower : Tower K V} {i : Nat} (h : i < tower.height) :
    lastReaching (first ++ [tower]) i = tower.address := by
  simp [lastReaching, reaching, h]

theorem Heap.Lays.append {heap : Heap K V} {first second : List (Tower K V)} (h : heap.Lays (first ++ second)) :
    heap.Lays second := by
  induction first with
  | nil => exact h
  | cons tower first ih => exact ih h.2

theorem Heap.next_of_node {heap : Heap K V} {address height i : Nat} {key : K} {value : V}
    {behind : List (Tower K V)} (h : heap.node? address = some ⟨key, value, links height behind⟩)
    (hi : i < height) : heap.next address i = reaching behind i := by
  simp [Heap.next, h, getElem?_links behind hi]

/-- The tower that a pointer leads to. -/
theorem Heap.Lays.reaching_some {heap : Heap K V} {towers : List (Tower K V)} {i address : Nat}
    (h : heap.Lays towers) (hreach : reaching towers i = some address) :
    ∃ front tower back, towers = front ++ tower :: back ∧ tower.address = address ∧ i < tower.height ∧
      heap.node? address = some ⟨tower.key, tower.value, links tower.height back⟩ ∧ heap.Lays back := by
  obtain ⟨tower, hfind, rfl⟩ := Option.map_eq_some_iff.mp hreach
  obtain ⟨hheight, front, back, rfl, -⟩ := List.find?_eq_some_iff_append.mp hfind
  have hlays := h.append
  exact ⟨front, tower, back, rfl, rfl, by simpa using hheight, hlays.1, hlays.2⟩

/-- A skip list whose towers, in order, are the given ones. -/
structure SkipList.Holds [Ord K] (list : SkipList K V) (towers : List (Tower K V)) : Prop where
  max_level : 0 < list.max_level
  current_level : list.current_level ≤ list.max_level
  head : ∃ key value, list.nodes.node? 0 = some ⟨key, value, links list.max_level towers⟩
  lays : list.nodes.Lays towers
  heights : ∀ tower ∈ towers, 0 < tower.height ∧ tower.height ≤ list.current_level
  addresses : (towers.map Tower.address).Nodup
  allocated : ∀ tower ∈ towers, tower.address ≠ 0 ∧ tower.address < list.nodes.length
  sorted : towers.Pairwise fun a b => compare a.key b.key = .lt
  count : list.node_count = Int32.ofNat towers.length
  length : towers.length < list.nodes.length

end

section

variable {K V : Type} [Ord K] {self : SkipList K V} {passed left post : List (Tower K V)} {key : K} {curr i : Nat}

/-- A walk on one level ends at the last tower with a smaller key that reaches it. -/
theorem SkipList.advance_eq {fuel : Nat} (hlays : self.nodes.Lays (left ++ post))
    (hleft : ∀ tower ∈ left, compare tower.key key = .lt)
    (hpost : ∀ tower ∈ post, compare tower.key key ≠ .lt)
    (hnext : ∀ j ≤ i, self.nodes.next curr j = reaching (left ++ post) j)
    (hlast : ∀ j ≤ i, lastReaching passed j = curr) (hfuel : left.length < fuel) :
    ∃ front back curr', left = front ++ back ∧ self.advance key i fuel curr = some curr' ∧
      (∀ tower ∈ back, tower.height ≤ i) ∧
      (∀ j ≤ i, self.nodes.next curr' j = reaching (back ++ post) j) ∧
      ∀ j ≤ i, lastReaching (passed ++ front) j = curr' := by
  induction fuel generalizing passed left curr with
  | zero => omega
  | succ fuel ih =>
    have hfirst := hnext i (Nat.le_refl i)
    rw [reaching_append] at hfirst
    cases hreach : reaching left i with
    | none =>
      refine ⟨[], left, curr, rfl, ?_, reaching_eq_none.mp hreach, hnext, by simpa using hlast⟩
      rw [hreach, Option.none_or] at hfirst
      rw [SkipList.advance, hfirst]
      cases hother : reaching post i with
      | none => rfl
      | some other =>
        obtain ⟨front, tower, back, rfl, rfl, -, hnode, -⟩ := hlays.append.reaching_some hother
        simp [hnode, hpost tower (by simp)]
    | some other =>
      rw [hreach, Option.some_or] at hfirst
      have hall : reaching (left ++ post) i = some other := by rw [reaching_append, hreach, Option.some_or]
      obtain ⟨tower, hfind, rfl⟩ := Option.map_eq_some_iff.mp hreach
      obtain ⟨hheight, front, back, rfl, -⟩ := List.find?_eq_some_iff_append.mp hfind
      simp only [decide_eq_true_eq] at hheight
      rw [List.append_assoc, List.cons_append] at hlays
      obtain ⟨hnode, hbehind⟩ := hlays.append
      have hlt := hleft tower (by simp)
      obtain ⟨front', back', curr', rfl, hadvance, hback, hnext', hlast'⟩ :=
        @ih (passed ++ (front ++ [tower])) back tower.address hbehind
          (fun other hother => hleft other (by simp [hother]))
          (fun j hj => Heap.next_of_node hnode (by omega))
          (fun j hj => by rw [← List.append_assoc]; exact lastReaching_concat (by omega))
          (by simp only [List.length_append, List.length_cons] at hfuel; omega)
      refine ⟨front ++ [tower] ++ front', back', curr', by simp, ?_, hback, hnext', ?_⟩
      · simp [SkipList.advance, hfirst, hnode, hlt, hadvance]
      · intro j hj
        rw [← hlast' j hj]
        simp

/-- The loop over the levels finds, on each level, the last tower with a smaller key. -/
theorem SkipList.predecessors_eq {pre : List (Tower K V)} {update : List Nat}
    (hsplit : pre = passed ++ left) (hlays : self.nodes.Lays (left ++ post))
    (hpre : ∀ tower ∈ pre, compare tower.key key = .lt ∧ 0 < tower.height)
    (hpost : ∀ tower ∈ post, compare tower.key key ≠ .lt) (hheights : ∀ tower ∈ left, tower.height ≤ i)
    (hnext : ∀ j, j < i ∨ j = 0 → self.nodes.next curr j = reaching (left ++ post) j)
    (hlast : ∀ j, j < i ∨ j = 0 → lastReaching passed j = curr)
    (hfuel : left.length < self.nodes.length) :
    ∃ curr' update', self.predecessors key i curr update = some (curr', update') ∧
      self.nodes.next curr' 0 = reaching post 0 ∧ update'.length = update.length ∧
      ∀ j, update'[j]? = if j < i ∧ j < update.length then some (lastReaching pre j) else update[j]? := by
  induction i generalizing passed left curr update with
  | zero =>
    have hempty : left = [] := by
      rw [List.eq_nil_iff_forall_not_mem]
      intro tower htower
      have hpos := (hpre tower (by simp [hsplit, htower])).2
      have hzero := hheights tower htower
      omega
    subst hempty
    exact ⟨curr, update, rfl, hnext 0 (.inr rfl), rfl, by simp⟩
  | succ i ih =>
    have hbelow : ∀ j ≤ i, self.nodes.next curr j = reaching (left ++ post) j :=
      fun j hj => hnext j (.inl (Nat.lt_succ_of_le hj))
    have hpassed : ∀ j ≤ i, lastReaching passed j = curr := fun j hj => hlast j (.inl (Nat.lt_succ_of_le hj))
    obtain ⟨front, back, curr', rfl, hadvance, hback, hnext', hlast'⟩ :=
      SkipList.advance_eq hlays (fun tower htower => (hpre tower (by simp [hsplit, htower])).1) hpost
        hbelow hpassed hfuel
    have hpred : curr' = lastReaching pre i := by
      rw [hsplit, ← List.append_assoc, lastReaching_append_of_le hback, hlast' i (Nat.le_refl i)]
    rw [List.append_assoc] at hlays
    obtain ⟨final, update', hrest, hbottom, hlength, hupdate⟩ :=
      @ih (passed ++ front) back curr' (update.set i curr') (by rw [hsplit, List.append_assoc])
        hlays.append hback (fun j hj => hnext' j (by omega)) (fun j hj => hlast' j (by omega))
        (by simp only [List.length_append] at hfuel; omega)
    refine ⟨final, update', ?_, hbottom, by simpa using hlength, ?_⟩
    · simp [SkipList.predecessors, hadvance, hrest]
    · intro j
      rw [hupdate, List.length_set]
      by_cases hj : j = i
      · subst hj
        by_cases hlt : j < update.length
        · simp [hlt, hpred]
        · simp [hlt]
      · rw [List.getElem?_set_ne (Ne.symm hj)]
        have hiff : j < i ∧ j < update.length ↔ j < i + 1 ∧ j < update.length := by omega
        simp only [hiff]

theorem SkipList.descend_eq (self : SkipList K V) (key : K) (i curr : Nat) (update : List Nat) :
    self.descend key i curr = (self.predecessors key i curr update).map Prod.fst := by
  induction i generalizing curr update with
  | zero => rfl
  | succ i ih =>
    simp only [SkipList.descend, SkipList.predecessors, Option.bind_eq_bind, Option.map_bind]
    cases self.advance key i self.nodes.length curr with
    | none => rfl
    | some next => exact ih next _

/-- The towers in front of a key and the others. -/
structure Splits (towers pre post : List (Tower K V)) (key : K) : Prop where
  eq : towers = pre ++ post
  pre_lt : ∀ tower ∈ pre, compare tower.key key = .lt
  post_ge : ∀ tower ∈ post, compare tower.key key ≠ .lt

theorem SkipList.Holds.splits [TransOrd K] {towers : List (Tower K V)} (h : self.Holds towers) (key : K) :
    ∃ pre post, Splits towers pre post key := by
  refine ⟨towers.takeWhile fun tower => compare tower.key key = .lt,
    towers.dropWhile fun tower => compare tower.key key = .lt, List.takeWhile_append_dropWhile.symm, ?_, ?_⟩
  · intro tower htower
    simpa using List.mem_takeWhile_imp htower
  · have hsorted := h.sorted.sublist (List.dropWhile_sublist fun tower => compare tower.key key = .lt)
    intro tower htower
    cases hpost : towers.dropWhile fun tower => compare tower.key key = .lt with
    | nil =>
      rw [hpost] at htower
      cases htower
    | cons first rest =>
      have hfirst : compare first.key key ≠ .lt := by
        have hne : (towers.dropWhile fun tower => compare tower.key key = .lt) ≠ [] := by
          rw [hpost]
          exact List.cons_ne_nil _ _
        have hnot := List.head_dropWhile_not _ hne
        simpa [hpost] using hnot
      rw [hpost] at htower hsorted
      rcases List.mem_cons.mp htower with rfl | hrest
      · exact hfirst
      · intro hlt
        exact hfirst (TransCmp.lt_trans (List.rel_of_pairwise_cons hsorted hrest) hlt)

/-- Both loops end in front of the key, with the last towers below it on each level. -/
theorem SkipList.Holds.predecessors_eq {towers pre post : List (Tower K V)} (h : self.Holds towers)
    (hsplit : Splits towers pre post key) :
    ∃ curr update, self.predecessors key self.current_level 0 (List.replicate self.max_level 0) =
        some (curr, update) ∧ self.nodes.next curr 0 = reaching post 0 ∧ update.length = self.max_level ∧
      ∀ j < self.max_level, update[j]? = some (lastReaching pre j) := by
  obtain ⟨hkey, hvalue, hhead⟩ := h.head
  have heights : ∀ tower ∈ pre, 0 < tower.height ∧ tower.height ≤ self.current_level :=
    fun tower htower => h.heights tower (by simp [hsplit.eq, htower])
  have hlays := h.lays
  have hlength := h.length
  rw [hsplit.eq] at hhead hlays hlength
  obtain ⟨curr, update, hloop, hbottom, hlen, hupdate⟩ := @SkipList.predecessors_eq K V _ self [] pre post key 0
    self.current_level pre (List.replicate self.max_level 0) rfl hlays
    (fun tower htower => ⟨hsplit.pre_lt tower htower, (heights tower htower).1⟩) hsplit.post_ge
    (fun tower htower => (heights tower htower).2)
    (fun j hj => Heap.next_of_node hhead (by
      have hmax := h.max_level
      have hcurrent := h.current_level
      omega))
    (fun j _ => rfl) (by simp only [List.length_append] at hlength; omega)
  rw [List.length_replicate] at hlen hupdate
  refine ⟨curr, update, hloop, hbottom, hlen, ?_⟩
  intro j hj
  rw [hupdate]
  by_cases hlevel : j < self.current_level
  · simp [hlevel, hj]
  · have hnone : lastReaching pre j = 0 := by
      exact @lastReaching_append_of_le K V [] pre j fun tower htower =>
        (heights tower htower).2.trans (Nat.le_of_not_lt hlevel)
    simp [hlevel, hj, hnone]

/-- The first tower not below a key is the one that is looked at. -/
theorem SkipList.Holds.matching_eq {towers pre post : List (Tower K V)} (h : self.Holds towers)
    (hsplit : Splits towers pre post key) (hnext : self.nodes.next curr 0 = reaching post 0) :
    self.matching key curr = some (post.head?.bind fun tower =>
      if compare tower.key key = .eq then some tower.address else none) := by
  have hlays := h.lays
  rw [hsplit.eq] at hlays
  cases post with
  | nil =>
    have hnone : self.nodes.next curr 0 = none := hnext
    simp [SkipList.matching, hnone]
  | cons tower rest =>
    have hheight := (h.heights tower (by simp [hsplit.eq])).1
    have hfirst : self.nodes.next curr 0 = some tower.address := by
      rw [hnext]
      simp [reaching, hheight]
    simp [SkipList.matching, hfirst, hlays.append.1]

/-- What a search finds. -/
theorem SkipList.Holds.search_element_eq {towers pre post : List (Tower K V)} (h : self.Holds towers)
    (hsplit : Splits towers pre post key) :
    self.search_element key = some (post.head?.bind fun tower =>
      if compare tower.key key = .eq then some tower.value else none) := by
  obtain ⟨curr, update, hloop, hbottom, -⟩ := h.predecessors_eq hsplit
  have hdescend : self.descend key self.current_level 0 = some curr := by
    rw [self.descend_eq key self.current_level 0 (List.replicate self.max_level 0), hloop]
    rfl
  rw [SkipList.search_element, hdescend, Option.bind_eq_bind, Option.bind_some, h.matching_eq hsplit hbottom]
  have hlays := h.lays
  rw [hsplit.eq] at hlays
  cases post with
  | nil => rfl
  | cons tower rest =>
    by_cases heq : compare tower.key key = .eq
    · simp [heq, hlays.append.1]
    · simp [heq]

omit [Ord K] in
/-- The rows from the first of some towers on. -/
theorem SkipList.rows_eq {towers : List (Tower K V)} {fuel : Nat} (hlays : self.nodes.Lays towers)
    (hheights : ∀ tower ∈ towers, 0 < tower.height) (hfuel : towers.length ≤ fuel) :
    self.rows fuel (reaching towers 0) = some (towers.map fun tower => (tower.key, tower.value)) := by
  induction towers generalizing fuel with
  | nil => cases fuel <;> rfl
  | cons tower towers ih =>
    have hheight := hheights tower List.mem_cons_self
    have hfirst : reaching (tower :: towers) 0 = some tower.address := by simp [reaching, hheight]
    cases fuel with
    | zero => cases hfuel
    | succ fuel =>
      have hrest := ih hlays.2 (fun other hother => hheights other (List.mem_cons_of_mem _ hother))
        (Nat.le_of_succ_le_succ hfuel)
      simp [SkipList.rows, hfirst, hlays.1, Heap.next_of_node hlays.1 hheight, hrest]

/-- An iterator shows the entries of the towers. -/
theorem SkipList.Holds.iterate_eq {towers : List (Tower K V)} (h : self.Holds towers) :
    self.iterate = some (towers.map fun tower => (tower.key, tower.value)) := by
  obtain ⟨_, _, hhead⟩ := h.head
  rw [SkipList.iterate, Heap.next_of_node hhead h.max_level]
  exact SkipList.rows_eq h.lays (fun tower htower => (h.heights tower htower).1) h.length.le

end

end NovaKV
