/-!
# Results and lists

When the operations that combine results succeed and when they fail, that removing repetitions
leaves none, what is noted once behind what is there, and what a map shows of a list.
-/

namespace ColumnMetadata

variable {α β ε ε' : Type}

/-- Two steps succeed when the first does and the second does with what it gave. -/
theorem bind_eq_ok {x : Except ε α} {f : α → Except ε β} {b : β} :
    (x >>= f) = .ok b ↔ ∃ a, x = .ok a ∧ f a = .ok b := by
  cases x with
  | error e => simp [bind, Except.bind]
  | ok a => simp [bind, Except.bind]

theorem map_eq_ok {x : Except ε α} {f : α → β} {b : β} :
    x.map f = .ok b ↔ ∃ a, x = .ok a ∧ f a = b := by
  cases x <;> simp [Except.map]

theorem bind_eq_error {x : Except ε α} {f : α → Except ε β} {e : ε} :
    (x >>= f) = .error e ↔ x = .error e ∨ ∃ a, x = .ok a ∧ f a = .error e := by
  cases x with
  | error e => simp [bind, Except.bind]
  | ok a => simp [bind, Except.bind]

theorem map_eq_error {x : Except ε α} {f : α → β} {e : ε} : x.map f = .error e ↔ x = .error e := by
  cases x <;> simp [Except.map]

theorem mapError_eq_ok {x : Except ε α} {f : ε → ε'} {a : α} :
    x.mapError f = .ok a ↔ x = .ok a := by
  cases x with
  | error e => exact ⟨nofun, nofun⟩
  | ok b =>
    constructor
    · rintro ⟨⟩
      rfl
    · rintro ⟨⟩
      rfl

theorem mapError_eq_error {x : Except ε α} {f : ε → ε'} {e : ε'} :
    x.mapError f = .error e ↔ ∃ e', x = .error e' ∧ f e' = e := by
  cases x with
  | error e' =>
    constructor
    · rintro ⟨⟩
      exact ⟨e', rfl, rfl⟩
    · rintro ⟨_, ⟨⟩, rfl⟩
      rfl
  | ok b => exact ⟨nofun, nofun⟩

/-- A result that passes a test is there. -/
theorem exists_ok_of_any {x : Except ε α} {p : α → Bool} (h : x.toOption.any p = true) :
    ∃ a, x = .ok a ∧ p a = true := by
  cases x with
  | error e => cases h
  | ok a => exact ⟨a, rfl, h⟩

theorem nodup_eraseDups {α : Type} [BEq α] [LawfulBEq α] (xs : List α) : xs.eraseDups.Nodup :=
  match xs with
  | [] => List.nodup_nil
  | x :: xs => by
    rw [List.eraseDups_cons, List.nodup_cons, List.mem_eraseDups]
    exact ⟨by simp, nodup_eraseDups _⟩
termination_by xs.length
decreasing_by exact Nat.lt_succ_of_le (List.length_filter_le _ _)

/-- A map that tells elements apart does not matter to what is repeated. -/
theorem map_eraseDups {α β : Type} [BEq α] [LawfulBEq α] [BEq β] [LawfulBEq β] {f : α → β}
    (xs : List α) (h : ∀ x ∈ xs, ∀ y ∈ xs, f x = f y → x = y) :
    xs.eraseDups.map f = (xs.map f).eraseDups :=
  match xs with
  | [] => rfl
  | x :: xs => by
    have hfilter : (xs.map f).filter (fun y => !y == f x) =
        (xs.filter fun y => !y == x).map f := by
      rw [List.filter_map]
      refine congrArg (List.map f) (List.filter_congr fun y hy => ?_)
      have hiff : (f y == f x) = (y == x) := by
        rw [Bool.eq_iff_iff, beq_iff_eq, beq_iff_eq]
        exact ⟨h y (List.mem_cons_of_mem x hy) x List.mem_cons_self, congrArg f⟩
      rw [Function.comp_apply, hiff]
    have hrest : ∀ y ∈ xs.filter fun y => !y == x, y ∈ x :: xs :=
      fun y hy => List.mem_cons_of_mem x (List.mem_filter.1 hy).1
    rw [List.eraseDups_cons, List.map_cons, List.map_cons, List.eraseDups_cons, hfilter,
      map_eraseDups _ fun y hy z hz => h y (hrest y hy) z (hrest z hz)]
termination_by xs.length
decreasing_by exact Nat.lt_succ_of_le (List.length_filter_le _ _)

/-- Puts an element behind a list that does not have it. -/
def noted [BEq α] (xs : List α) (x : α) : List α := if xs.contains x then xs else xs ++ [x]

theorem mem_noted [BEq α] [LawfulBEq α] {xs : List α} {x y : α} :
    y ∈ noted xs x ↔ y ∈ xs ∨ y = x := by
  unfold noted
  split
  · next h =>
    have hx : x ∈ xs := List.contains_iff_mem.1 h
    exact ⟨.inl, fun hy => hy.elim id fun he => he ▸ hx⟩
  · simp

/-- Elements noted one after the other stand in the order in which they are first met, behind those
that were there. -/
theorem foldl_noted [BEq α] [LawfulBEq α] (xs more : List α) :
    more.foldl noted xs = xs ++ (more.filter fun x => !xs.contains x).eraseDups := by
  induction more generalizing xs with
  | nil => simp
  | cons x more ih =>
    rw [List.foldl_cons, ih, noted]
    cases hx : xs.contains x with
    | true => rw [if_pos rfl, List.filter_cons_of_neg (by rw [hx]; exact nofun)]
    | false =>
      have hfilter : (more.filter fun y => !(xs ++ [x]).contains y) =
          (more.filter fun y => !xs.contains y).filter fun y => !y == x := by
        rw [List.filter_filter]
        refine List.filter_congr fun y _ => ?_
        rw [List.contains_append, List.contains_cons, List.contains_nil, Bool.or_false,
          Bool.not_or, Bool.and_comm]
      rw [if_neg nofun, hfilter, List.filter_cons_of_pos (by rw [hx]; rfl), List.eraseDups_cons,
        List.append_assoc, List.singleton_append]

theorem foldl_noted_nil [BEq α] [LawfulBEq α] (xs : List α) :
    xs.foldl noted [] = xs.eraseDups := by
  have hall : (xs.filter fun x => !([] : List α).contains x) = xs :=
    List.filter_eq_self.2 fun _ _ => rfl
  rw [foldl_noted, List.nil_append, hall]

/-- A run of elements with a property, in front of a text that does not begin with such an element.
-/
theorem takeWhile_append_of_head {p : α → Bool} {run rest : List α} (h : ∀ a ∈ run, p a = true)
    (hrest : ∀ a ∈ rest.head?, p a = false) : (run ++ rest).takeWhile p = run := by
  rw [List.takeWhile_append_of_pos h]
  cases rest with
  | nil => simp
  | cons a rest => simp [hrest a rfl]

theorem dropWhile_append_of_head {p : α → Bool} {run rest : List α} (h : ∀ a ∈ run, p a = true)
    (hrest : ∀ a ∈ rest.head?, p a = false) : (run ++ rest).dropWhile p = rest := by
  rw [List.dropWhile_append_of_pos h]
  cases rest with
  | nil => simp
  | cons a rest => simp [hrest a rfl]

/-- A change of one element, seen through a map. -/
theorem map_modify {α β : Type} {f : α → β} {g : α → α} {g' : β → β} (h : ∀ x, f (g x) = g' (f x))
    (xs : List α) (i : Nat) : (xs.modify i g).map f = (xs.map f).modify i g' := by
  induction xs generalizing i with
  | nil => cases i <;> rfl
  | cons x xs ih =>
    cases i with
    | zero => simp [h]
    | succ i => simp [ih]

/-- A change of one element that a map does not see. -/
theorem map_modify_eq_self {α β : Type} {f : α → β} {g : α → α} (h : ∀ x, f (g x) = f x)
    (xs : List α) (i : Nat) : (xs.modify i g).map f = xs.map f := by
  have hid : ∀ x, f (g x) = id (f x) := h
  rw [map_modify hid, List.modify_id]

/-- Two maps that give the same for elements that another pair of maps sends to the same. -/
theorem map_eq_map_of_map_eq {α β γ δ : Type} {f : α → γ} {g : β → γ} {f' : α → δ} {g' : β → δ}
    {xs : List α} {ys : List β} (h : xs.map f = ys.map g)
    (hsame : ∀ x ∈ xs, ∀ y ∈ ys, f x = g y → f' x = g' y) : xs.map f' = ys.map g' := by
  induction xs generalizing ys with
  | nil =>
    rw [List.map_eq_nil_iff.1 h.symm]
    rfl
  | cons x xs ih =>
    obtain ⟨y, ys, rfl, hy, hys⟩ := List.map_eq_cons_iff.1 h.symm
    obtain ⟨hx, hxs⟩ := List.forall_mem_cons.1 hsame
    rw [List.map_cons, List.map_cons, hx y List.mem_cons_self hy.symm,
      ih hys.symm fun x hx y hy => hxs x hx y (List.mem_cons_of_mem _ hy)]

/-- Elements that a test accepts, when a map tells those apart. -/
theorem eq_of_nodup_map_filter {p : α → Bool} {f : α → β} {xs : List α}
    (h : ((xs.filter p).map f).Nodup) {i j : Nat} {x y : α} (hx : xs[i]? = some x)
    (hy : xs[j]? = some y) (hpx : p x = true) (hpy : p y = true) (he : f x = f y) : i = j := by
  have hpairwise := List.pairwise_filter.1 (List.pairwise_map.1 h)
  obtain ⟨hi, rfl⟩ := List.getElem?_eq_some_iff.1 hx
  obtain ⟨hj, rfl⟩ := List.getElem?_eq_some_iff.1 hy
  rcases Nat.lt_trichotomy i j with hlt | heq | hgt
  · exact absurd he (List.pairwise_iff_getElem.1 hpairwise i j hi hj hlt hpx hpy)
  · exact heq
  · exact absurd he.symm (List.pairwise_iff_getElem.1 hpairwise j i hj hi hgt hpy hpx)

/-- How often something stands in lists one behind the other, when only one of them has it. -/
theorem count_flatMap_of_nodup [BEq β] [LawfulBEq β] {xs : List α} (hnodup : xs.Nodup)
    {f : α → List β} {x : α} (hx : x ∈ xs) {y : β} (hother : ∀ x' ∈ xs, y ∈ f x' → x' = x) :
    (xs.flatMap f).count y = (f x).count y := by
  obtain ⟨before, after, rfl⟩ := List.append_of_mem hx
  obtain ⟨-, hafter, hbefore⟩ := List.nodup_append.1 hnodup
  have hnone : ∀ xs' : List α, (∀ x' ∈ xs', x' ∈ before ++ x :: after ∧ x' ≠ x) →
      (xs'.flatMap f).count y = 0 := by
    intro xs' hxs'
    refine List.count_eq_zero.2 fun hy => ?_
    obtain ⟨x', hx', hy⟩ := List.mem_flatMap.1 hy
    exact (hxs' x' hx').2 (hother x' (hxs' x' hx').1 hy)
  rw [List.flatMap_append, List.flatMap_cons, List.count_append, List.count_append, hnone before,
    hnone after, Nat.zero_add, Nat.add_zero]
  · intro x' hx'
    refine ⟨List.mem_append_right before (List.mem_cons_of_mem x hx'), ?_⟩
    rintro rfl
    exact (List.nodup_cons.1 hafter).1 hx'
  · intro x' hx'
    exact ⟨List.mem_append_left _ hx', hbefore x' hx' x List.mem_cons_self⟩

end ColumnMetadata
