import TreeGrowth.Mesh.Sweep
import Mathlib

/-!
# Strips of triangles

The triangles of a strip pass between two rings.  A vertex is given by the
number of its ring and its place around it, and the places form a cycle, so the
last step around a strip is a step like any other.  An edge between the rings is
always met by its reverse in the same strip; an edge along a ring is met only by
another strip that has the ring at its other side.
-/

namespace TreeGrowth

/-! ## Faces -/

/-- A triangle, with its corners in their order around it. -/
structure Face (α : Type) where
  a : α
  b : α
  c : α

namespace Face

variable {α β : Type}

def edges (face : Face α) : List (α × α) :=
  [(face.a, face.b), (face.b, face.c), (face.c, face.a)]

def map (f : α → β) (face : Face α) : Face β :=
  ⟨f face.a, f face.b, f face.c⟩

structure Distinct (face : Face α) : Prop where
  ab : face.a ≠ face.b
  bc : face.b ≠ face.c
  ca : face.c ≠ face.a

theorem Distinct.map {face : Face α} (hdistinct : face.Distinct) {f : α → β}
    (hf : Function.Injective f) : (face.map f).Distinct :=
  ⟨hf.ne hdistinct.ab, hf.ne hdistinct.bc, hf.ne hdistinct.ca⟩

theorem edges_map (f : α → β) (face : Face α) :
    (face.map f).edges = face.edges.map (Prod.map f f) := rfl

/-- The triangles of an index buffer, three entries for each. -/
def ofIndices : List α → List (Face α)
  | a :: b :: c :: rest => ⟨a, b, c⟩ :: ofIndices rest
  | _ => []

theorem ofIndices_append {xs : List α} (hxs : 3 ∣ xs.length) (ys : List α) :
    ofIndices (xs ++ ys) = ofIndices xs ++ ofIndices ys := by
  induction xs using ofIndices.induct with
  | case1 a b c rest ih =>
      have hrest : 3 ∣ rest.length := by
        simp only [List.length_cons] at hxs
        omega
      simp [ofIndices, ih hrest]
  | case2 xs hshort =>
      match xs, hshort with
      | [], _ => rfl
      | [_], _ => simp at hxs
      | [_, _], _ => simp at hxs
      | a :: b :: c :: rest, hshort => exact absurd rfl (hshort a b c rest)

theorem ofIndices_map (f : α → β) (xs : List α) :
    ofIndices (xs.map f) = (ofIndices xs).map (map f) := by
  induction xs using ofIndices.induct with
  | case1 a b c rest ih => simp [ofIndices, ih, map]
  | case2 xs hshort =>
      match xs, hshort with
      | [], _ => rfl
      | [_], _ => rfl
      | [_, _], _ => rfl
      | a :: b :: c :: rest, hshort => exact absurd rfl (hshort a b c rest)

theorem ofIndices_flatMap {ι : Type} {f : ι → List α}
    (hf : ∀ i, 3 ∣ (f i).length) (is : List ι) :
    ofIndices (is.flatMap f) = is.flatMap fun i => ofIndices (f i) := by
  induction is with
  | nil => rfl
  | cons i is ih =>
      rw [List.flatMap_cons, ofIndices_append (hf i), ih, List.flatMap_cons]

end Face

def edgesOf {α : Type} (faces : List (Face α)) : List (α × α) :=
  faces.flatMap Face.edges

theorem edgesOf_map {α β : Type} (f : α → β) (faces : List (Face α)) :
    edgesOf (faces.map (Face.map f)) = (edgesOf faces).map (Prod.map f f) := by
  simp [edgesOf, List.flatMap_map, List.map_flatMap, Face.edges_map]

theorem mem_edgesOf_map {α β : Type} {f : α → β} {faces : List (Face α)}
    {x y : β} :
    (x, y) ∈ edgesOf (faces.map (Face.map f)) ↔
      ∃ u v, (u, v) ∈ edgesOf faces ∧ f u = x ∧ f v = y := by
  simp [edgesOf_map]

theorem unmatched_edge_map_iff {α β : Type} {f : α → β}
    (hf : Function.Injective f) {faces : List (Face α)} {x y : β} :
    ((x, y) ∈ edgesOf (faces.map (Face.map f)) ∧
        (y, x) ∉ edgesOf (faces.map (Face.map f))) ↔
      ∃ u v, ((u, v) ∈ edgesOf faces ∧ (v, u) ∉ edgesOf faces) ∧
        f u = x ∧ f v = y := by
  simp only [mem_edgesOf_map]
  constructor
  · rintro ⟨⟨u, v, hedge, rfl, rfl⟩, hreverse⟩
    exact ⟨u, v, ⟨hedge, fun h => hreverse ⟨v, u, h, rfl, rfl⟩⟩, rfl, rfl⟩
  · rintro ⟨u, v, ⟨hedge, hreverse⟩, rfl, rfl⟩
    refine ⟨⟨u, v, hedge, rfl, rfl⟩, ?_⟩
    rintro ⟨v', u', hedge', hv, hu⟩
    rw [hf hv, hf hu] at hedge'
    exact hreverse hedge'

/-! ## A single strip -/

/-- A vertex by the number of its ring and its place around it. -/
abbrev RingVertex (n : Nat) := Nat × Fin n

variable {n : Nat} [NeZero n]

theorem add_one_ne_self (hn : 3 ≤ n) (k : Fin n) : k + 1 ≠ k := by
  intro heq
  have hone : (1 : Fin n) = 0 := add_eq_left.mp heq
  have hval := congrArg Fin.val hone
  rw [Fin.val_one', Fin.val_zero, Nat.mod_eq_of_lt (by omega)] at hval
  exact one_ne_zero hval

theorem add_one_add_one_ne_self (hn : 3 ≤ n) (k : Fin n) : k + 1 + 1 ≠ k := by
  intro heq
  rw [add_assoc, add_eq_left] at heq
  have hval := congrArg Fin.val heq
  have hone : 1 % n = 1 := Nat.mod_eq_of_lt (by omega)
  rw [Fin.val_add, Fin.val_one', Fin.val_zero, hone,
    Nat.mod_eq_of_lt (by omega)] at hval
  exact two_ne_zero hval

namespace RingPair

variable (pair : RingPair)

/-- The two triangles of a step around a strip. -/
def stepFaces (k : Fin n) : List (Face (RingVertex n)) :=
  [⟨(pair.start, k), (pair.finish, k), (pair.start, k + 1)⟩,
    ⟨(pair.start, k + 1), (pair.finish, k), (pair.finish, k + 1)⟩]

variable (n) in
def strip : List (Face (RingVertex n)) :=
  (List.finRange n).flatMap pair.stepFaces

inductive Borders : RingVertex n → RingVertex n → Prop
  | across (i j : Fin n) (hplace : i = j ∨ i = j + 1) :
      Borders (pair.start, i) (pair.finish, j)
  | back (i j : Fin n) (hplace : i = j ∨ i = j + 1) :
      Borders (pair.finish, j) (pair.start, i)
  | first (k : Fin n) : Borders (pair.start, k + 1) (pair.start, k)
  | last (k : Fin n) : Borders (pair.finish, k) (pair.finish, k + 1)

variable {pair} {x y : RingVertex n}

variable (pair) in
theorem edgesOf_stepFaces (k : Fin n) :
    edgesOf (pair.stepFaces k) =
      [((pair.start, k), (pair.finish, k)),
        ((pair.finish, k), (pair.start, k + 1)),
        ((pair.start, k + 1), (pair.start, k)),
        ((pair.start, k + 1), (pair.finish, k)),
        ((pair.finish, k), (pair.finish, k + 1)),
        ((pair.finish, k + 1), (pair.start, k + 1))] := rfl

theorem borders_of_mem_stepEdges {k : Fin n}
    (hedge : (x, y) ∈ edgesOf (pair.stepFaces k)) : pair.Borders x y := by
  simp only [edgesOf_stepFaces, List.mem_cons, List.not_mem_nil, or_false,
    Prod.mk.injEq] at hedge
  rcases hedge with ⟨rfl, rfl⟩ | ⟨rfl, rfl⟩ | ⟨rfl, rfl⟩ | ⟨rfl, rfl⟩ |
    ⟨rfl, rfl⟩ | ⟨rfl, rfl⟩
  · exact .across k k (.inl rfl)
  · exact .back (k + 1) k (.inr rfl)
  · exact .first k
  · exact .across (k + 1) k (.inr rfl)
  · exact .last k
  · exact .back (k + 1) (k + 1) (.inl rfl)

theorem edgesOf_strip :
    edgesOf (pair.strip n) =
      (List.finRange n).flatMap fun k => edgesOf (pair.stepFaces k) := by
  rw [edgesOf, strip, List.flatMap_assoc]
  rfl

theorem mem_edgesOf_strip :
    (x, y) ∈ edgesOf (pair.strip n) ↔ pair.Borders x y := by
  rw [edgesOf_strip]
  constructor
  · intro hedge
    obtain ⟨k, _, hedge⟩ := List.mem_flatMap.mp hedge
    exact borders_of_mem_stepEdges hedge
  · intro hborders
    -- Each edge is found at one step; the edges back to the first ring without
    -- a turn are those of the step before.
    have hstep : ∀ k : Fin n, (x, y) ∈ edgesOf (pair.stepFaces k) →
        (x, y) ∈ (List.finRange n).flatMap fun k =>
          edgesOf (pair.stepFaces k) := fun k hedge =>
      List.mem_flatMap.mpr ⟨k, List.mem_finRange k, hedge⟩
    cases hborders with
    | across i j hplace =>
        obtain rfl | rfl := hplace
        · exact hstep i (by simp [edgesOf_stepFaces])
        · exact hstep j (by simp [edgesOf_stepFaces])
    | back i j hplace =>
        obtain rfl | rfl := hplace
        · exact hstep (i - 1) (by simp [edgesOf_stepFaces])
        · exact hstep j (by simp [edgesOf_stepFaces])
    | first k => exact hstep k (by simp [edgesOf_stepFaces])
    | last k => exact hstep k (by simp [edgesOf_stepFaces])

theorem distinct_of_mem_strip (hn : 3 ≤ n) (hlt : pair.start < pair.finish)
    {face : Face (RingVertex n)} (hface : face ∈ pair.strip n) :
    face.Distinct := by
  obtain ⟨k, _, hface⟩ := List.mem_flatMap.mp hface
  have hrings : pair.start ≠ pair.finish := hlt.ne
  have hplaces := add_one_ne_self hn k
  simp only [stepFaces, List.mem_cons, List.not_mem_nil, or_false] at hface
  rcases hface with rfl | rfl
  · constructor <;> simp [hrings, hrings.symm, hplaces]
  · constructor <;> simp [hrings, hrings.symm, hplaces.symm]

theorem nodup_stepEdges (hn : 3 ≤ n) (hlt : pair.start < pair.finish)
    (k : Fin n) : (edgesOf (pair.stepFaces k)).Nodup := by
  have hrings : pair.start ≠ pair.finish := hlt.ne
  have hplaces := add_one_ne_self hn k
  simp [edgesOf_stepFaces, hrings, hrings.symm, hplaces, hplaces.symm]

/-- The place that an edge leads to tells the step around the strip. -/
theorem place_of_mem_stepEdges (hlt : pair.start < pair.finish) {k : Fin n}
    (hedge : (x, y) ∈ edgesOf (pair.stepFaces k)) :
    y.2 = if x.1 = pair.start then k else k + 1 := by
  have hrings : pair.finish ≠ pair.start := hlt.ne'
  simp only [edgesOf_stepFaces, List.mem_cons, List.not_mem_nil, or_false,
    Prod.mk.injEq] at hedge
  rcases hedge with ⟨rfl, rfl⟩ | ⟨rfl, rfl⟩ | ⟨rfl, rfl⟩ | ⟨rfl, rfl⟩ |
    ⟨rfl, rfl⟩ | ⟨rfl, rfl⟩ <;> simp [hrings]

theorem nodup_edgesOf_strip (hn : 3 ≤ n) (hlt : pair.start < pair.finish) :
    (edgesOf (pair.strip n)).Nodup := by
  rw [edgesOf_strip, List.nodup_flatMap]
  refine ⟨fun k _ => nodup_stepEdges hn hlt k, ?_⟩
  apply (List.nodup_finRange n).imp
  intro j k hne
  rintro ⟨x, y⟩ hj hk
  have hplace := (place_of_mem_stepEdges hlt hj).symm.trans
    (place_of_mem_stepEdges hlt hk)
  split at hplace
  next => exact hne hplace
  next => exact hne (add_right_cancel hplace)

/-! ## Edges and their reverses -/

theorem Borders.rings (hborders : pair.Borders x y) :
    (x.1 = pair.start ∨ x.1 = pair.finish) ∧
      (y.1 = pair.start ∨ y.1 = pair.finish) := by
  cases hborders <;> simp

/-- The strip goes around its first ring one way and around its last ring the
other way. -/
theorem borders_ring_iff (hlt : pair.start < pair.finish) {ring : Nat}
    {i j : Fin n} :
    pair.Borders (ring, i) (ring, j) ↔
      (ring = pair.start ∧ i = j + 1) ∨ (ring = pair.finish ∧ j = i + 1) := by
  constructor
  · intro hborders
    generalize hx : (ring, i) = x at hborders
    generalize hy : (ring, j) = y at hborders
    cases hborders with
    | across | back =>
        have hfirst := congrArg Prod.fst hx
        have hsecond := congrArg Prod.fst hy
        simp only at hfirst hsecond
        omega
    | first k =>
        obtain ⟨rfl, rfl⟩ := Prod.mk.inj hx
        obtain ⟨_, rfl⟩ := Prod.mk.inj hy
        exact .inl ⟨rfl, rfl⟩
    | last k =>
        obtain ⟨rfl, rfl⟩ := Prod.mk.inj hx
        obtain ⟨_, rfl⟩ := Prod.mk.inj hy
        exact .inr ⟨rfl, rfl⟩
  · rintro (⟨rfl, rfl⟩ | ⟨rfl, rfl⟩)
    · exact .first j
    · exact .last i

end RingPair

/-! ## Strips of several pairs -/

section Surface

variable (n) in
def surface (pairs : List RingPair) : List (Face (RingVertex n)) :=
  pairs.flatMap fun pair => pair.strip n

variable {pairs : List RingPair} {x y : RingVertex n}

theorem edgesOf_surface :
    edgesOf (surface n pairs) =
      pairs.flatMap fun pair => edgesOf (pair.strip n) := by
  rw [edgesOf, surface, List.flatMap_assoc]
  rfl

theorem mem_edgesOf_surface :
    (x, y) ∈ edgesOf (surface n pairs) ↔
      ∃ pair ∈ pairs, pair.Borders x y := by
  simp only [edgesOf_surface, List.mem_flatMap, RingPair.mem_edgesOf_strip]

theorem disjoint_edgesOf_strip (hn : 3 ≤ n) {p q : RingPair}
    (hp : p.start < p.finish) (hq : q.start < q.finish)
    (hle : p.finish ≤ q.start) :
    (edgesOf (p.strip n)).Disjoint (edgesOf (q.strip n)) := by
  rintro ⟨⟨r, i⟩, ⟨s, j⟩⟩ hfirst hsecond
  rw [RingPair.mem_edgesOf_strip] at hfirst hsecond
  have hrings := hfirst.rings
  have hrings' := hsecond.rings
  simp only at hrings hrings'
  -- A common edge runs along the ring that ends the one strip and begins the
  -- other, and the two go around it in opposite ways.
  obtain rfl : r = s := by omega
  rw [RingPair.borders_ring_iff hp] at hfirst
  rw [RingPair.borders_ring_iff hq] at hsecond
  have hi : j = i + 1 := by
    rcases hfirst with ⟨hr, _⟩ | ⟨_, hj⟩
    · omega
    · exact hj
  have hj : i = j + 1 := by
    rcases hsecond with ⟨_, hi⟩ | ⟨hr, _⟩
    · exact hi
    · omega
  rw [hi] at hj
  exact add_one_add_one_ne_self hn i hj.symm

theorem nodup_edgesOf_surface (hn : 3 ≤ n)
    (hlt : ∀ pair ∈ pairs, pair.start < pair.finish)
    (hordered : pairs.Pairwise fun p q => p.finish ≤ q.start) :
    (edgesOf (surface n pairs)).Nodup := by
  rw [edgesOf_surface, List.nodup_flatMap]
  refine ⟨fun pair hpair =>
    RingPair.nodup_edgesOf_strip hn (hlt pair hpair), ?_⟩
  apply hordered.imp_of_mem
  intro p q hp hq hle
  exact disjoint_edgesOf_strip hn (hlt p hp) (hlt q hq) hle

theorem distinct_of_mem_surface (hn : 3 ≤ n)
    (hlt : ∀ pair ∈ pairs, pair.start < pair.finish)
    {face : Face (RingVertex n)} (hface : face ∈ surface n pairs) :
    face.Distinct := by
  obtain ⟨pair, hpair, hface⟩ := List.mem_flatMap.mp hface
  exact RingPair.distinct_of_mem_strip hn (hlt pair hpair) hface

/-- The edges without a reverse run along the rings that begin a strip and end
none, and along those that end a strip and begin none. -/
theorem unmatched_edge_iff (hn : 3 ≤ n)
    (hlt : ∀ pair ∈ pairs, pair.start < pair.finish) :
    ((x, y) ∈ edgesOf (surface n pairs) ∧
        (y, x) ∉ edgesOf (surface n pairs)) ↔
      (∃ p ∈ pairs, (∀ q ∈ pairs, q.finish ≠ p.start) ∧
        ∃ k, x = (p.start, k + 1) ∧ y = (p.start, k)) ∨
      ∃ p ∈ pairs, (∀ q ∈ pairs, q.start ≠ p.finish) ∧
        ∃ k, x = (p.finish, k) ∧ y = (p.finish, k + 1) := by
  simp only [mem_edgesOf_surface]
  constructor
  · rintro ⟨⟨p, hp, hborders⟩, hreverse⟩
    cases hborders with
    | across i j hplace => exact absurd ⟨p, hp, .back i j hplace⟩ hreverse
    | back i j hplace => exact absurd ⟨p, hp, .across i j hplace⟩ hreverse
    | first k =>
        refine .inl ⟨p, hp, ?_, k, rfl, rfl⟩
        intro q hq hring
        refine hreverse ⟨q, hq, ?_⟩
        rw [← hring]
        exact .last k
    | last k =>
        refine .inr ⟨p, hp, ?_, k, rfl, rfl⟩
        intro q hq hring
        refine hreverse ⟨q, hq, ?_⟩
        rw [← hring]
        exact .first k
  · rintro (⟨p, hp, halone, k, rfl, rfl⟩ | ⟨p, hp, halone, k, rfl, rfl⟩)
    · refine ⟨⟨p, hp, .first k⟩, ?_⟩
      rintro ⟨q, hq, hreverse⟩
      rw [RingPair.borders_ring_iff (hlt q hq)] at hreverse
      rcases hreverse with ⟨_, hk⟩ | ⟨hring, _⟩
      · exact add_one_add_one_ne_self hn k hk.symm
      · exact halone q hq hring.symm
    · refine ⟨⟨p, hp, .last k⟩, ?_⟩
      rintro ⟨q, hq, hreverse⟩
      rw [RingPair.borders_ring_iff (hlt q hq)] at hreverse
      rcases hreverse with ⟨hring, _⟩ | ⟨_, hk⟩
      · exact halone q hq hring.symm
      · exact add_one_add_one_ne_self hn k hk.symm

end Surface

/-! ## Strips of an index buffer -/

/-- The place of a vertex in a mesh of rings of `n` vertices. -/
def RingVertex.index (v : RingVertex n) : Nat := v.1 * n + v.2

theorem RingVertex.index_injective :
    Function.Injective (RingVertex.index (n := n)) :=
  (Nat.divModEquiv n).symm.injective

theorem RingVertex.index_add_one (ring : Nat) (k : Fin n) :
    RingVertex.index (ring, k + 1) = ring * n + (k + 1) % n := by
  rw [RingVertex.index, Fin.val_add, Fin.val_one', Nat.add_mod_mod]

theorem RingPair.ofIndices_stripIndices (pair : RingPair) :
    Face.ofIndices (stripIndices (pair.start * n) (pair.finish * n) n) =
      (pair.strip n).map (Face.map RingVertex.index) := by
  have hrange : List.range n = (List.finRange n).map Fin.val := by
    simp
  rw [stripIndices, Face.ofIndices_flatMap fun _ => ⟨2, rfl⟩, hrange,
    List.flatMap_map, RingPair.strip, List.map_flatMap]
  simp only [RingPair.stepFaces, List.map_cons, List.map_nil, Face.map,
    RingVertex.index_add_one]
  rfl

end TreeGrowth
