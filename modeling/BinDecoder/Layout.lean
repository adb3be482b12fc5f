import BinDecoder.Heap
import BinDecoder.Indirect

/-!
# Trees in the heap: the tree model of `indirect` is the heap model

`BinDecoder.Reflect` runs `indirect` (`src/decoder.go`) over a destination kept as a tree,
and leaves out the loop's guard against an interface that holds its own address;
`BinDecoder.Heap` runs the same loop over numbered cells, guard included.  This file lays
a tree out in the heap and proves that on such a heap the two loops take the same rounds
and end the same way (`indirect_refines`): out of fuel both, the same panic, or
corresponding values, destinations and receivers.  On the way the guard never fires
(`Cursor.not_guard`): that is what the tree model's omission rests on.

* Types: `Describes env T rel` says that a type number `n` with `rel t n` has the kind,
  name and custom decoder of the type `t`, and so do the type of `v.Addr()` and a
  pointer's element type.
* Values: `Lay R t x F` says that the `reflect.Value` `R` holds the tree value `x` of type
  `t`, down through pointers and interfaces, which is all `indirect` looks at; `F` lists
  the addresses of the variables on the way, and no address comes twice, so no value
  holds its own address.
* Cursors: `Seg` is the way down from the root along a path, and `Cursor v R` says that
  the cursor `v` of the tree model and the `reflect.Value` `R` of the heap model are the
  same value.
-/

namespace BinDecoder

namespace Heap

/-- The addresses a `reflect.Value` occupies: a variable its own, a copy none. -/
def Ref.own : Ref → List Nat
  | .var _ a => [a]
  | _ => []

@[simp] theorem Ref.own_var (t a : Nat) : (Ref.var t a).own = [a] := rfl
@[simp] theorem Ref.own_val (t : Nat) (x : Cell) : (Ref.val t x).own = [] := rfl

theorem Ref.nodup_own (R : Ref) : R.own.Nodup := by
  cases R <;> simp [Ref.own]

/-- The type numbers of `T` describe the types of `env`: a number `n` with `rel t n` has
the kind, name and custom decoder of `t`, `T.ptrTo n` has the custom decoder of `*t`, and
the element type of a pointer type is described by its element's number. -/
structure Describes (env : TypeEnv) (T : TypeTable) (rel : GoType → Nat → Prop) : Prop where
  kind : ∀ {t n}, rel t n → T.kind n = env.kind t
  named : ∀ {t n}, rel t n → T.named n = t.hasName
  unmarshaler : ∀ {t n}, rel t n → T.unmarshaler n = (env.methodOf t).isSome
  unmarshaler_ptrTo : ∀ {t n}, rel t n →
    T.unmarshaler (T.ptrTo n) = (env.methodOf (.ptr t)).isSome
  elem : ∀ {t n et}, rel t n → env.underlying t = .ptr et → rel et (T.elem n)

/-- `Lay R t x F`: the `reflect.Value` `R` of the heap `h` holds the tree value `x` of type
`t`, down through its pointers and interfaces; `F` lists the addresses of the variables
on the way, `R`'s own first, and no address comes twice. -/
inductive Lay (env : TypeEnv) (T : TypeTable) (rel : GoType → Nat → Prop) (h : List Cell) :
    Ref → GoType → Value → List Nat → Prop
  | nilPtr {R t n} : R.type? = some n → rel t n → env.kind t = .ptr →
      R.read h = some (.ptr none) → Lay env T rel h R t (.ptr none) R.own
  | ptr {R t n et x b F} : R.type? = some n → rel t n → env.underlying t = .ptr et →
      R.read h = some (.ptr (some b)) → Lay env T rel h (.var (T.elem n) b) et x F →
      (R.own ++ F).Nodup → Lay env T rel h R t (.ptr (some x)) (R.own ++ F)
  | nilIface {R t n} : R.type? = some n → rel t n → env.underlying t = .iface →
      R.read h = some (.iface none) → Lay env T rel h R t (.iface none) R.own
  | iface {R t n dt m d x F} : R.type? = some n → rel t n → env.underlying t = .iface →
      R.read h = some (.iface (some (m, d))) → Lay env T rel h (.val m d.toCell) dt x F →
      (R.own ++ F).Nodup → Lay env T rel h R t (.iface (some (dt, x))) (R.own ++ F)
  | other {R t n x} : R.type? = some n → rel t n → env.kind t ≠ .ptr →
      env.kind t ≠ .interface → R.read h = some .other → Lay env T rel h R t x R.own

/-- `Seg R0 t0 r p R t y G`: in the tree `r` of type `t0` held by `R0`, the path `p` leads
to `R`, which holds `y` of type `t`; `G` lists the addresses of the variables passed. -/
inductive Seg (env : TypeEnv) (T : TypeTable) (rel : GoType → Nat → Prop) (h : List Cell)
    (R0 : Ref) (t0 : GoType) (r : Value) : List Step → Ref → GoType → Value → List Nat → Prop
  | nil : Seg env T rel h R0 t0 r [] R0 t0 r []
  | deref {p R t n et y b G} : Seg env T rel h R0 t0 r p R t (.ptr (some y)) G →
      R.type? = some n → rel t n → env.underlying t = .ptr et →
      R.read h = some (.ptr (some b)) →
      Seg env T rel h R0 t0 r (p ++ [.deref]) (.var (T.elem n) b) et y (G ++ R.own)
  | dyn {p R t n dt y m d G} : Seg env T rel h R0 t0 r p R t (.iface (some (dt, y))) G →
      R.type? = some n → rel t n → env.underlying t = .iface →
      R.read h = some (.iface (some (m, d))) →
      Seg env T rel h R0 t0 r (p ++ [.dyn]) (.val m d.toCell) dt y (G ++ R.own)

/-- The cursor `v` of the tree model, in the tree `r` of type `t0` held by `R0`, is the
`reflect.Value` `R` of the heap model. -/
def Cursor (env : TypeEnv) (T : TypeTable) (rel : GoType → Nat → Prop) (h : List Cell)
    (R0 : Ref) (t0 : GoType) (r : Value) : RValue → Ref → Prop
  | .invalid, R => R = .invalid
  | .loc t p s, R => R.canSet = s ∧ ∃ y G, Seg env T rel h R0 t0 r p R t y G
  | .addr t p, R => ∃ n a y G, R = .val (T.ptrTo n) (.ptr (some a)) ∧
      Seg env T rel h R0 t0 r p (.var n a) t y G

/-- The custom decoder the tree model found, with the path of its receiver's target, and
the receiver the heap model found: the pointer of the same cursor. -/
def Receiver (env : TypeEnv) (T : TypeTable) (rel : GoType → Nat → Prop) (h : List Cell)
    (R0 : Ref) (t0 : GoType) (r : Value) : Option (Unmarshaler × List Step) → Option Ref → Prop
  | none, none => True
  | some (u, q), some R => ∃ v, Cursor env T rel h R0 t0 r v R ∧ v.target = q ∧
      v.type?.bind env.methodOf = some u
  | _, _ => False

/-- The outcomes of `indirect` in the two models agree: both out of fuel, the same panic,
or the tree model's destination laid out in the heap model's, with corresponding values
and receivers. -/
def Refines (env : TypeEnv) (T : TypeTable) (rel : GoType → Nat → Prop) (R0 : Ref)
    (t0 : GoType) : Option (Except Panic BinDecoder.Indirection) →
      Option (Except Panic Indirection) → Prop
  | none, none => True
  | some (.error p), some (.error q) => p = q
  | some (.ok ⟨u, v, r⟩), some (.ok ⟨U, R, h⟩) => (∃ F, Lay env T rel h R0 t0 r F) ∧
      Cursor env T rel h R0 t0 r v R ∧ Receiver env T rel h R0 t0 r u U
  | _, _ => False

/-! ## Reading a laid-out value -/

namespace Ref

variable {T : TypeTable} {h h' : List Cell}

theorem kind_of_type? {R : Ref} {n : Nat} (hn : R.type? = some n) : R.kind T = T.kind n := by
  cases R <;> cases hn <;> rfl

/-- A value reads the same from two heaps that agree at its own address. -/
theorem read_frame {R : Ref} (hf : ∀ a ∈ R.own, h'[a]? = h[a]?) : R.read h' = R.read h := by
  cases R with
  | var t a => exact hf a (List.mem_singleton_self a)
  | _ => rfl

/-- A value that reads a cell has its address in the heap. -/
theorem own_lt {R : Ref} {c : Cell} (hr : R.read h = some c) : ∀ a ∈ R.own, a < h.length := by
  cases R with
  | var t a =>
    intro b hb
    rw [List.mem_singleton.mp hb]
    exact (List.getElem?_eq_some_iff.mp hr).1
  | _ => nofun

end Ref

/-- `reflect.Zero` of a type that is neither a pointer nor an interface. -/
theorem zero_of_kind {T : TypeTable} {m : Nat} (hp : T.kind m ≠ .ptr)
    (hi : T.kind m ≠ .interface) : zero T m = .other := by
  unfold zero
  split <;> simp_all

/-- `v.Elem()` of a value that is neither a non-nil pointer nor a non-nil interface. -/
theorem Ref.elem_of_read {T : TypeTable} {h : List Cell} {v : Ref} {c : Cell}
    (hr : v.read h = some c) (hp : ∀ a, c ≠ .ptr (some a)) (hi : ∀ m x, c ≠ .iface (some (m, x))) :
    v.elem T h = .invalid := by
  simp only [Ref.elem, hr]
  split <;> simp_all

/-- `indirect` of a value with a type. -/
theorem indirect_of_type? {T : TypeTable} {R : Ref} {k : Nat} (hk : R.type? = some k) (n : Nat)
    (dn : Bool) (h : List Cell) :
    indirect T n R dn h = if T.kind k ≠ .ptr ∧ T.named k = true ∧ R.canSet = true then
      indirectLoop T dn R n (R.addr T) true h else indirectLoop T dn R n R false h := by
  cases R <;> cases hk <;> rfl

/-- The heap after `indirect` allocates the target of the pointer at `a`: it reads the same
at every other address it had. -/
theorem getElem?_allocated {h : List Cell} {a b : Nat} {c z : Cell} (hb : b < h.length)
    (hne : b ≠ a) : (h.set a c ++ [z])[b]? = h[b]? := by
  rw [List.getElem?_append_left (by simpa using hb), List.getElem?_set_ne (Ne.symm hne)]

/-- Two `if`s whose conditions agree, and whose branches are related. -/
theorem Option.rel_ite {α β : Type} {ρ : α → β → Prop} {c c' : Prop} [Decidable c] [Decidable c']
    {a b : Option α} {a' b' : Option β} (hc : c ↔ c') (ht : c → Option.Rel ρ a a')
    (he : ¬c → Option.Rel ρ b b') : Option.Rel ρ (if c then a else b) (if c' then a' else b') := by
  by_cases h : c
  · rw [if_pos h, if_pos (hc.mp h)]; exact ht h
  · rw [if_neg h, if_neg (mt hc.mpr h)]; exact he h

section Layout

variable {env : TypeEnv} {T : TypeTable} {rel : GoType → Nat → Prop} {h : List Cell}

namespace Lay

/-- A laid-out value has a type number that describes its type. -/
theorem typed {R : Ref} {t : GoType} {x : Value} {F : List Nat}
    (hl : Lay env T rel h R t x F) : ∃ n, R.type? = some n ∧ rel t n := by
  cases hl with
  | nilPtr hn ht | ptr hn ht | nilIface hn ht | iface hn ht | other hn ht => exact ⟨_, hn, ht⟩

theorem kind_eq (hT : Describes env T rel) {R : Ref} {t : GoType} {x : Value} {F : List Nat}
    (hl : Lay env T rel h R t x F) : R.kind T = env.kind t := by
  obtain ⟨n, hn, ht⟩ := hl.typed
  rw [Ref.kind_of_type? hn, hT.kind ht]

/-- The addresses of a laid-out value start with its own. -/
theorem own_prefix {R : Ref} {t : GoType} {x : Value} {F : List Nat}
    (hl : Lay env T rel h R t x F) : ∃ F', F = R.own ++ F' := by
  cases hl with
  | ptr | iface => exact ⟨_, rfl⟩
  | nilPtr | nilIface | other => exact ⟨[], (List.append_nil _).symm⟩

theorem nodup {R : Ref} {t : GoType} {x : Value} {F : List Nat}
    (hl : Lay env T rel h R t x F) : F.Nodup := by
  cases hl with
  | ptr _ _ _ _ _ hd | iface _ _ _ _ _ hd => exact hd
  | nilPtr | nilIface | other => exact R.nodup_own

/-- Every address of a laid-out value is in the heap. -/
theorem lt_length {R : Ref} {t : GoType} {x : Value} {F : List Nat}
    (hl : Lay env T rel h R t x F) : ∀ a ∈ F, a < h.length := by
  induction hl with
  | nilPtr _ _ _ hr | nilIface _ _ _ hr | other _ _ _ _ hr => exact Ref.own_lt hr
  | ptr _ _ _ hr _ _ ih | iface _ _ _ hr _ _ ih =>
    intro a ha
    rcases List.mem_append.mp ha with ha | ha
    · exact Ref.own_lt hr a ha
    · exact ih a ha

/-- A laid-out value stays laid out in a heap that agrees at its addresses. -/
theorem frame {h' : List Cell} {R : Ref} {t : GoType} {x : Value} {F : List Nat}
    (hl : Lay env T rel h R t x F) (hf : ∀ a ∈ F, h'[a]? = h[a]?) :
    Lay env T rel h' R t x F := by
  induction hl with
  | nilPtr hn ht hk hr => exact .nilPtr hn ht hk (Ref.read_frame hf ▸ hr)
  | nilIface hn ht hk hr => exact .nilIface hn ht hk (Ref.read_frame hf ▸ hr)
  | other hn ht hp hi hr => exact .other hn ht hp hi (Ref.read_frame hf ▸ hr)
  | ptr hn ht hu hr _ hd ih =>
    exact .ptr hn ht hu (Ref.read_frame (fun a ha => hf a (List.mem_append_left _ ha)) ▸ hr)
      (ih fun a ha => hf a (List.mem_append_right _ ha)) hd
  | iface hn ht hu hr _ hd ih =>
    exact .iface hn ht hu (Ref.read_frame (fun a ha => hf a (List.mem_append_left _ ha)) ▸ hr)
      (ih fun a ha => hf a (List.mem_append_right _ ha)) hd

/-- A value of type `t` that reads `reflect.Zero` of a number describing `t` holds the tree
model's zero value of `t`. -/
theorem zero (hT : Describes env T rel) {R : Ref} {t : GoType} {m : Nat} (hR : R.type? = some m)
    (hm : rel t m) (hr : R.read h = some (Heap.zero T m)) : Lay env T rel h R t (env.zero t) R.own := by
  have hk := hT.kind hm
  by_cases hp : env.kind t = .ptr
  · obtain ⟨et, hu⟩ := env.underlying_of_kind_ptr hp
    rw [← env.zero_underlying, hu]
    exact .nilPtr hR hm hp (by rw [hr, Heap.zero, hk, hp])
  by_cases hi : env.kind t = .interface
  · have hu : env.underlying t = .iface := by
      unfold TypeEnv.kind at hi
      generalize env.underlying t = u at hi ⊢
      cases u <;> first | rfl | cases hi
    rw [← env.zero_underlying, hu]
    exact .nilIface hR hm hu (by rw [hr, Heap.zero, hk, hi])
  · exact .other hR hm hp hi (by rw [hr, zero_of_kind (hk ▸ hp) (hk ▸ hi)])

/-- The nil pointer variable `var n a` of type `t` after `indirect` allocates its target: it
points to a fresh cell at the end of the heap, which holds the zero value. -/
theorem alloc (hT : Describes env T rel) {n a : Nat} {t : GoType} (hn : rel t n)
    (hk : env.kind t = .ptr) (ha : a < h.length) :
    Lay env T rel (h.set a (.ptr (some h.length)) ++ [Heap.zero T (T.elem n)]) (.var n a) t
      (.ptr (some (env.zero (env.elem t)))) [a, h.length] := by
  obtain ⟨et, hu⟩ := env.underlying_of_kind_ptr hk
  have he : env.elem t = et := by simp only [TypeEnv.elem, hu]
  rw [he]
  refine .ptr rfl hn hu ?_ (zero hT rfl (hT.elem hn hu) ?_) (by simp; omega)
  · rw [Ref.read_var, List.getElem?_append_left (by simpa using ha), List.getElem?_set_self ha]
  · simp

/-- No laid-out interface variable holds a pointer to itself. -/
theorem not_self_iface (hT : Describes env T rel) {k b : Nat} {t : GoType} {x : Value}
    {F : List Nat} (hl : Lay env T rel h (.var k b) t x F) (hk : env.kind t = .interface)
    {R : Ref} (he : (Ref.var k b).elem T h = R) (hr : R.read h = some (.ptr (some b))) : False := by
  cases hl with
  | nilPtr _ _ hp _ => exact absurd (hp.symm.trans hk) (by decide)
  | ptr _ _ hu _ _ _ =>
    have hp : env.kind t = .ptr := by rw [TypeEnv.kind, hu]; rfl
    exact absurd (hp.symm.trans hk) (by decide)
  | other _ _ _ hi _ => exact hi hk
  | nilIface _ _ _ hr' =>
    rw [Ref.elem_of_read hr' nofun nofun] at he
    subst he; cases hr
  | iface hn ht _ hr' hc hd =>
    rw [Ref.elem_of_iface _ (by rw [Ref.kind_of_type? hn, hT.kind ht, hk]) hr'] at he
    subst he
    rw [Option.some.inj hr] at hc
    cases hc with
    | ptr _ _ _ hr'' hcc _ =>
      obtain rfl : _ = b := by simpa using hr''.symm
      obtain ⟨F', rfl⟩ := hcc.own_prefix
      simp at hd
    | nilPtr _ _ _ hr'' | nilIface _ _ _ hr'' | iface _ _ _ hr'' _ _ | other _ _ _ _ hr'' =>
      simp at hr''

end Lay

namespace Seg

variable {R0 : Ref} {t0 : GoType} {r : Value}

/-- The value at the end of a way down is the tree's value at its path. -/
theorem get {p : List Step} {R : Ref} {t : GoType} {y : Value} {G : List Nat}
    (hs : Seg env T rel h R0 t0 r p R t y G) : r.get p = some y := by
  induction hs with
  | nil => rfl
  | deref _ _ _ _ _ ih | dyn _ _ _ _ _ ih => rw [Value.get_append, ih]; rfl

/-- A way down stays one when the tree's value at its end is replaced. -/
theorem set {p : List Step} {R : Ref} {t : GoType} {y : Value} {G : List Nat}
    (hs : Seg env T rel h R0 t0 r p R t y G) (y' : Value) :
    Seg env T rel h R0 t0 (r.set p y') p R t y' G := by
  induction hs generalizing y' with
  | nil => exact .nil
  | deref hs hn ht hu hr ih =>
    rw [Value.set_append _ _ _ _ _ hs.get]
    exact .deref (ih (.ptr (some y'))) hn ht hu hr
  | dyn hs hn ht hu hr ih =>
    rw [Value.set_append _ _ _ _ _ hs.get]
    exact .dyn (ih (.iface (some (_, y')))) hn ht hu hr

/-- A way down stays one in a heap that agrees at the addresses it passes. -/
theorem frame {h' : List Cell} {p : List Step} {R : Ref} {t : GoType} {y : Value}
    {G : List Nat} (hs : Seg env T rel h R0 t0 r p R t y G) (hf : ∀ a ∈ G, h'[a]? = h[a]?) :
    Seg env T rel h' R0 t0 r p R t y G := by
  induction hs with
  | nil => exact .nil
  | deref _ hn ht hu hr ih =>
    exact .deref (ih fun a ha => hf a (List.mem_append_left _ ha)) hn ht hu
      (Ref.read_frame (fun a ha => hf a (List.mem_append_right _ ha)) ▸ hr)
  | dyn _ hn ht hu hr ih =>
    exact .dyn (ih fun a ha => hf a (List.mem_append_left _ ha)) hn ht hu
      (Ref.read_frame (fun a ha => hf a (List.mem_append_right _ ha)) ▸ hr)

/-- The end of a way down from a laid-out root is laid out, with the rest of the root's
addresses. -/
theorem lay {F0 : List Nat} {p : List Step} {R : Ref} {t : GoType} {y : Value}
    {G : List Nat} (hl : Lay env T rel h R0 t0 r F0) (hs : Seg env T rel h R0 t0 r p R t y G) :
    ∃ F, F0 = G ++ F ∧ Lay env T rel h R t y F := by
  induction hs with
  | nil => exact ⟨F0, rfl, hl⟩
  | deref _ hn _ hu hr ih =>
    obtain ⟨F, rfl, hly⟩ := ih
    cases hly with
    | ptr hn' _ hu' hr' hc _ =>
      obtain rfl := Option.some.inj (hn.symm.trans hn')
      obtain rfl := GoType.ptr.inj (hu.symm.trans hu')
      obtain rfl : _ = _ := by simpa using hr.symm.trans hr'
      exact ⟨_, (List.append_assoc _ _ _).symm, hc⟩
    | other _ _ hp _ _ => exact absurd (by rw [TypeEnv.kind, hu]; rfl) hp
  | dyn _ _ _ hu hr ih =>
    obtain ⟨F, rfl, hly⟩ := ih
    cases hly with
    | iface _ _ _ hr' hc _ =>
      obtain ⟨rfl, rfl⟩ : _ = _ ∧ _ = _ := by simpa using hr.symm.trans hr'
      exact ⟨_, (List.append_assoc _ _ _).symm, hc⟩
    | other _ _ _ hi _ => exact absurd (by rw [TypeEnv.kind, hu]; rfl) hi

/-- A value laid out at the end of a way down, in place of the tree's value there, makes
the root laid out again. -/
theorem compose {p : List Step} {R : Ref} {t : GoType} {y : Value} {G : List Nat}
    (hs : Seg env T rel h R0 t0 r p R t y G) {y' : Value} {F : List Nat}
    (hl : Lay env T rel h R t y' F) (hd : (G ++ F).Nodup) :
    Lay env T rel h R0 t0 (r.set p y') (G ++ F) := by
  induction hs generalizing y' F with
  | nil => simpa using hl
  | deref hs hn ht hu hr ih =>
    rw [Value.set_append _ _ _ _ _ hs.get, List.append_assoc]
    rw [List.append_assoc] at hd
    exact ih (.ptr hn ht hu hr hl (List.Nodup.sublist (List.sublist_append_right _ _) hd)) hd
  | dyn hs hn ht hu hr ih =>
    rw [Value.set_append _ _ _ _ _ hs.get, List.append_assoc]
    rw [List.append_assoc] at hd
    exact ih (.iface hn ht hu hr hl (List.Nodup.sublist (List.sublist_append_right _ _) hd)) hd

end Seg

end Layout

/-! ## Cursors: one round of the loop in the two models -/

section Cursor

variable {env : TypeEnv} {T : TypeTable} {rel : GoType → Nat → Prop} {h : List Cell}
  {R0 : Ref} {t0 : GoType} {r : Value} {F0 : List Nat}
  (hT : Describes env T rel) (hl : Lay env T rel h R0 t0 r F0)

namespace Cursor

include hl

/-- A cursor into a laid-out tree that is not the zero `reflect.Value` is laid out itself,
with the type its cursor gives. -/
theorem lay {t : GoType} {p : List Step} {s : Bool} {R : Ref}
    (hc : Cursor env T rel h R0 t0 r (.loc t p s) R) :
    ∃ y G F, Seg env T rel h R0 t0 r p R t y G ∧ F0 = G ++ F ∧ Lay env T rel h R t y F := by
  obtain ⟨-, y, G, hs⟩ := hc
  obtain ⟨F, hF, hly⟩ := hs.lay hl
  exact ⟨y, G, F, hs, hF, hly⟩

include hT

/-- `v.Kind()` in the two models. -/
theorem kind_eq {v : RValue} {R : Ref} (hc : Cursor env T rel h R0 t0 r v R) :
    R.kind T = v.kind env := by
  cases v with
  | invalid => rw [show R = .invalid from hc]; rfl
  | loc t p s =>
    obtain ⟨y, G, F, -, -, hly⟩ := lay hl hc
    exact hly.kind_eq hT
  | addr t p =>
    obtain ⟨n, a, y, G, rfl, -⟩ := hc
    exact T.kind_ptrTo n

omit hT hl in
/-- `v.CanSet()` in the two models. -/
theorem canSet_eq {v : RValue} {R : Ref} (hc : Cursor env T rel h R0 t0 r v R) :
    R.canSet = v.canSet := by
  cases v with
  | invalid => rw [show R = .invalid from hc]; rfl
  | loc t p s => exact hc.1
  | addr t p => obtain ⟨n, a, y, G, rfl, -⟩ := hc; rfl

omit hT in
/-- `v.IsNil()` of a pointer or an interface in the two models. -/
theorem isNil_eq {v : RValue} {R : Ref} (hc : Cursor env T rel h R0 t0 r v R)
    (hk : v.kind env = .ptr ∨ v.kind env = .interface) : R.isNil h = v.isNil r := by
  cases v with
  | invalid => rw [show R = .invalid from hc]; rfl
  | loc t p s =>
    obtain ⟨y, G, F, hs, -, hly⟩ := lay hl hc
    have hg := hs.get
    cases hly with
    | nilPtr _ _ _ hr | ptr _ _ _ hr _ _ | nilIface _ _ _ hr | iface _ _ _ hr _ _ =>
      simp only [Ref.isNil, RValue.isNil, hr, hg]
    | other _ _ hp hi _ => exact (hk.elim hp hi).elim
  | addr t p => obtain ⟨n, a, y, G, rfl, -⟩ := hc; rfl

/-- `v.Elem()` in the two models. -/
theorem elem {v : RValue} {R : Ref} (hc : Cursor env T rel h R0 t0 r v R) :
    Cursor env T rel h R0 t0 r (v.elem env r) (R.elem T h) := by
  cases v with
  | invalid => rw [show R = .invalid from hc]; rfl
  | loc t p s =>
    obtain ⟨y, G, F, hs, -, hly⟩ := lay hl hc
    have hg := hs.get
    cases hly with
    | nilPtr _ _ hk hr =>
      obtain ⟨et, hu⟩ := env.underlying_of_kind_ptr hk
      rw [Ref.elem_of_read hr nofun nofun]
      simp only [RValue.elem, hu, hg]
      rfl
    | ptr hn ht hu hr _ _ =>
      have hk : R.kind T = .ptr := by rw [Ref.kind_of_type? hn, hT.kind ht, TypeEnv.kind, hu]; rfl
      rw [RValue.elem_ptr env r hu hg, Ref.elem_of_ptr _ hk hn hr]
      exact ⟨rfl, _, _, .deref hs hn ht hu hr⟩
    | nilIface _ _ hu hr =>
      rw [Ref.elem_of_read hr nofun nofun]
      simp only [RValue.elem, hu, hg]
      rfl
    | iface hn ht hu hr _ _ =>
      have hk : R.kind T = .interface := by
        rw [Ref.kind_of_type? hn, hT.kind ht, TypeEnv.kind, hu]; rfl
      rw [Ref.elem_of_iface _ hk hr]
      simp only [RValue.elem, hu, hg]
      exact ⟨rfl, _, _, .dyn hs hn ht hu hr⟩
    | other _ _ hp hi hr =>
      rw [Ref.elem_of_read hr nofun nofun]
      unfold TypeEnv.kind at hp hi
      simp only [RValue.elem]
      split
      · next hu _ => rw [hu] at hp; exact absurd rfl hp
      · next hu _ => rw [hu] at hi; exact absurd rfl hi
      · rfl
  | addr t p =>
    obtain ⟨n, a, y, G, rfl, hs⟩ := hc
    rw [RValue.elem_addr, Ref.elem_of_ptr (.val (T.ptrTo n) (.ptr (some a))) (T.kind_ptrTo n) rfl rfl, T.elem_ptrTo]
    exact ⟨rfl, _, _, hs⟩

/-- The guard of `indirect`'s loop, an interface that holds the very pointer the loop is
at, never fires at a pointer of a laid-out tree. -/
theorem not_guard {v : RValue} {R : Ref} (hc : Cursor env T rel h R0 t0 r v R)
    (hp : v.kind env = .ptr) :
    ¬((R.elem T h).kind T = .interface ∧ (R.elem T h).elem T h = R) := by
  rintro ⟨hk, he⟩
  cases v with
  | invalid => cases hp
  | addr t p =>
    obtain ⟨n, a, y, G, rfl, hs⟩ := hc
    obtain ⟨F, -, hly⟩ := hs.lay hl
    rw [Ref.elem_of_ptr (.val (T.ptrTo n) (.ptr (some a))) (T.kind_ptrTo n) rfl rfl, T.elem_ptrTo] at hk he
    exact hly.not_self_iface hT (by rw [← hly.kind_eq hT, hk]) he rfl
  | loc t p s =>
    obtain ⟨y, G, F, -, -, hly⟩ := lay hl hc
    cases hly with
    | nilPtr _ _ _ hr => rw [Ref.elem_of_read hr nofun nofun] at hk; cases hk
    | ptr hn ht hu hr hcl _ =>
      have hkR : R.kind T = .ptr := by
        rw [Ref.kind_of_type? hn, hT.kind ht, TypeEnv.kind, hu]; rfl
      rw [Ref.elem_of_ptr _ hkR hn hr] at hk he
      exact hcl.not_self_iface hT (by rw [← hcl.kind_eq hT, hk]) he hr
    | nilIface _ _ hu _ | iface _ _ hu _ _ _ =>
      exact absurd (hp.symm.trans (by rw [RValue.kind_loc, TypeEnv.kind, hu])) (by decide)
    | other _ _ hp' _ _ => exact hp' hp


/-- The first test of the loop in the two models: both enter corresponding values, or
neither enters. -/
theorem enterInterface (dn : Bool) {v : RValue} {R : Ref} (hc : Cursor env T rel h R0 t0 r v R) :
    Option.Rel (Cursor env T rel h R0 t0 r) (v.enterInterface env r dn)
      (R.enterInterface T h dn) := by
  have hce := elem hT hl hc
  have e1 : (v.kind env = .interface ∧ v.isNil r = false) ↔
      (R.kind T = .interface ∧ R.isNil h = false) := by
    rw [kind_eq hT hl hc]; exact and_congr_right fun hi => by rw [isNil_eq hl hc (.inr hi)]
  have e2 : ((v.elem env r).kind env = .ptr ∧ (v.elem env r).isNil r = false ∧
      (dn = false ∨ ((v.elem env r).elem env r).kind env = .ptr)) ↔
      ((R.elem T h).kind T = .ptr ∧ (R.elem T h).isNil h = false ∧
      (dn = false ∨ ((R.elem T h).elem T h).kind T = .ptr)) := by
    rw [kind_eq hT hl hce, kind_eq hT hl (elem hT hl hce)]
    exact and_congr_right fun hp => by rw [isNil_eq hl hce (.inl hp)]
  unfold RValue.enterInterface Ref.enterInterface
  exact Option.rel_ite e1 (fun _ => Option.rel_ite e2 (fun _ => .some hce) fun _ => .none)
    fun _ => .none

/-- `v.Set(reflect.New(v.Type().Elem()))` at a pointer in the two models: the same panic,
or a destination and a heap in which the tree is still laid out and `v` is still the same
value; at a pointer that is not nil nothing changes. -/
theorem allocate {v : RValue} {R : Ref} (hc : Cursor env T rel h R0 t0 r v R)
    (hp : v.kind env = .ptr) :
    (∃ q, v.allocate env r = .error q ∧ R.allocate T h = .error q) ∨
      ∃ r' h' F', v.allocate env r = .ok r' ∧ R.allocate T h = .ok h' ∧
        Lay env T rel h' R0 t0 r' F' ∧ Cursor env T rel h' R0 t0 r' v R ∧
        (v.isNil r = false → r' = r ∧ h' = h) := by
  have hn := isNil_eq hl hc (.inl hp)
  cases hnil : v.isNil r with
  | false =>
    rw [hnil] at hn
    refine .inr ⟨r, h, F0, ?_, Ref.allocate_of_not_nil hn, hl, hc, fun _ => ⟨rfl, rfl⟩⟩
    simp only [RValue.allocate, hnil, Bool.false_eq_true, if_false]
  | true =>
    rw [hnil] at hn
    cases v with
    | invalid => cases hp
    | addr t p => cases hnil
    | loc t p s =>
      obtain ⟨y, G, F, hs, rfl, hly⟩ := lay hl hc
      cases hly with
      | ptr _ _ _ _ _ _ => simp [RValue.isNil, hs.get] at hnil
      | nilIface _ _ hu _ | iface _ _ hu _ _ _ =>
        exact absurd (hp.symm.trans (by rw [RValue.kind_loc, TypeEnv.kind, hu])) (by decide)
      | other _ _ hp' _ _ => exact absurd hp hp'
      | nilPtr hk ht hkp _ =>
        have hsR := hc.1
        cases R with
        | invalid => cases hk
        | val k c =>
          rw [Ref.canSet_val] at hsR
          subst hsR
          left
          simp only [RValue.allocate, Ref.allocate, hnil, hn, if_true]
          exact ⟨_, rfl, rfl⟩
        | var k a =>
          rw [Ref.canSet_var] at hsR
          subst hsR
          have hkn := Option.some.inj hk
          subst hkn
          have hd := hl.nodup
          have hlt := hl.lt_length
          simp only [Ref.own_var, List.nodup_append, List.nodup_cons, List.mem_append,
            List.mem_singleton] at hd hlt
          have hf : ∀ b ∈ G, (h.set a (.ptr (some h.length)) ++ [Heap.zero T (T.elem k)])[b]? =
              h[b]? := fun b hb =>
            getElem?_allocated (hlt b (.inl hb)) fun hba => hd.2.2 hb (List.mem_singleton.mpr hba)
          have hnd : (G ++ [a, h.length]).Nodup := by
            rw [show [a, h.length] = [a] ++ [h.length] from rfl, ← List.append_assoc,
              ← List.concat_eq_append]
            refine List.Nodup.concat ?_ (List.nodup_append.mpr ⟨hd.1, by simp, hd.2.2⟩)
            simp only [List.mem_append, List.mem_singleton, not_or]
            exact ⟨fun hm => absurd (hlt _ (.inl hm)) (lt_irrefl _),
              fun he => absurd (hlt a (.inr rfl)) (by rw [← he]; exact lt_irrefl _)⟩
          refine .inr ⟨_, _, _, ?_, ?_, (hs.frame hf).compose (Lay.alloc hT ht hkp (hlt a (.inr rfl))) hnd,
            ⟨rfl, _, _, (hs.frame hf).set _⟩, nofun⟩
          · simp only [RValue.allocate, hnil, if_true]
          · simp only [Ref.allocate, hn, if_true]

/-- The test for a custom decoder in the two models. -/
theorem unmarshaler_eq {v : RValue} {R : Ref} (hc : Cursor env T rel h R0 t0 r v R) :
    (R.type?.map T.unmarshaler).getD false = (v.type?.bind env.methodOf).isSome := by
  cases v with
  | invalid => rw [show R = .invalid from hc]; rfl
  | loc t p s =>
    obtain ⟨y, G, F, -, -, hly⟩ := lay hl hc
    obtain ⟨n, hn, ht⟩ := hly.typed
    rw [hn, Option.map_some', Option.getD_some, hT.unmarshaler ht]
    rfl
  | addr t p =>
    obtain ⟨n, a, y, G, rfl, hs⟩ := hc
    obtain ⟨F, -, hly⟩ := hs.lay hl
    obtain ⟨k, hk, ht⟩ := hly.typed
    cases hk
    exact hT.unmarshaler_ptrTo ht

end Cursor

end Cursor

/-! ## The loop and `indirect` -/

section Loop

variable {env : TypeEnv} {T : TypeTable} {rel : GoType → Nat → Prop} (hT : Describes env T rel)
  (dn : Bool) (R0 : Ref) (t0 : GoType)
include hT

/-- The loops of `indirect` in the two models, from the same value of a laid-out tree, take
the same rounds and end the same way.  Going round through an address (`haveAddr`), the
loop is at a pointer that is not nil and comes back to the value it started from. -/
theorem indirectLoop_refines (v0 : RValue) (V0 : Ref) :
    ∀ (n : Nat) (v : RValue) (R : Ref) (haveAddr : Bool) (r : Value) (h : List Cell)
      (F : List Nat), Lay env T rel h R0 t0 r F → Cursor env T rel h R0 t0 r v R →
      (haveAddr = true → v.isNil r = false ∧ Cursor env T rel h R0 t0 r v0 V0) →
      Refines env T rel R0 t0 (BinDecoder.indirectLoop env dn v0 n v haveAddr r)
        (indirectLoop T dn V0 n R haveAddr h)
  | 0, _, _, _, _, _, _, _, _, _ => trivial
  | n + 1, v, R, haveAddr, r, h, F, hl, hc, ha => by
    have ih := indirectLoop_refines v0 V0 n
    rw [BinDecoder.indirectLoop, indirectLoop]
    have he := Cursor.enterInterface hT hl dn hc
    generalize v.enterInterface env r dn = e at he ⊢
    generalize R.enterInterface T h dn = E at he ⊢
    cases he with
    | some hce => exact ih _ _ false r h F hl hce nofun
    | none =>
    dsimp only
    have hk := Cursor.kind_eq hT hl hc
    by_cases hp : v.kind env = .ptr
    swap
    · have hpR : ¬R.kind T = .ptr := by rwa [hk]
      rw [if_pos hp, if_pos hpR]
      exact ⟨⟨F, hl⟩, hc, trivial⟩
    have hpR : R.kind T = .ptr := hk.trans hp
    rw [if_neg (not_not_intro hp), if_neg (not_not_intro hpR)]
    have hce := Cursor.elem hT hl hc
    have hb' : ((R.elem T h).kind T ≠ .ptr ∧ dn = true ∧ R.canSet = true) ↔
        ((v.elem env r).kind env ≠ .ptr ∧ dn = true ∧ v.canSet = true) := by
      rw [Cursor.kind_eq hT hl hce, Cursor.canSet_eq hc]
    by_cases hb : (v.elem env r).kind env ≠ .ptr ∧ dn = true ∧ v.canSet = true
    · rw [if_pos hb, if_pos (hb'.mpr hb)]
      exact ⟨⟨F, hl⟩, hc, trivial⟩
    rw [if_neg hb, if_neg (mt hb'.mp hb), if_neg (Cursor.not_guard hT hl hc hp)]
    rcases Cursor.allocate hT hl hc hp with ⟨q, hav, haR⟩ | ⟨r', h', F', hav, haR, hl', hc', hsame⟩
    · rw [hav, haR]; rfl
    rw [hav, haR]
    dsimp only
    rw [Cursor.unmarshaler_eq hT hl hc]
    cases hm : v.type?.bind env.methodOf with
    | some u => exact ⟨⟨F', hl'⟩, rfl, v, hc', rfl, hm⟩
    | none =>
      cases haveAddr with
      | true =>
        obtain ⟨hnil, hc0⟩ := ha rfl
        obtain ⟨rfl, rfl⟩ := hsame hnil
        exact ih v0 V0 false _ _ F hl hc0 nofun
      | false => exact ih _ _ false r' h' F' hl' (Cursor.elem hT hl' hc') nofun

/-- `indirect` in the two models, from the same value of a laid-out tree: the same panic,
out of fuel both, or the same value and receiver in the destination after both. -/
theorem indirect_refines (n : Nat) {v : RValue} {R : Ref} {r : Value} {h : List Cell}
    {F : List Nat} (hl : Lay env T rel h R0 t0 r F) (hc : Cursor env T rel h R0 t0 r v R) :
    Refines env T rel R0 t0 (BinDecoder.indirect env n v dn r) (indirect T n R dn h) := by
  cases v with
  | invalid => rw [show R = .invalid from hc]; rfl
  | loc t p s =>
    obtain ⟨y, G, F', hs, -, hly⟩ := Cursor.lay hl hc
    obtain ⟨k, hk, ht⟩ := hly.typed
    simp only [BinDecoder.indirect]
    rw [indirect_of_type? hk, hT.kind ht, hT.named ht, hc.1]
    split_ifs with hcond
    · obtain ⟨-, -, rfl⟩ := hcond
      cases R with
      | var k' a =>
        cases hk
        exact indirectLoop_refines hT dn R0 t0 _ _ n _ _ true r h F hl ⟨k, a, y, G, rfl, hs⟩
          fun _ => ⟨rfl, hc⟩
      | val k' c => cases hc.1
      | invalid => cases hk
    · exact indirectLoop_refines hT dn R0 t0 _ _ n _ _ false r h F hl hc nofun
  | addr t p =>
    obtain ⟨k, a, y, G, rfl, hs⟩ := hc
    simp only [BinDecoder.indirect]
    rw [indirect_of_type? (R := .val (T.ptrTo k) (.ptr (some a))) rfl,
      if_neg fun hcond => hcond.1 (T.kind_ptrTo k)]
    exact indirectLoop_refines hT dn R0 t0 _ _ n _ _ false r h F hl ⟨k, a, y, G, rfl, hs⟩ nofun

end Loop

/-! ## A laid-out interface -/

/-- The types of a program with an `interface{}` variable that holds a `*bool`, numbered as
in `exampleTable`: `interface{}` is `2`, `bool` is `4` and `*bool` is `9`. -/
def exampleTypes (t : GoType) (n : Nat) : Prop :=
  (t, n) ∈ [(GoType.iface, 2), (.bool, 4), (.ptr .bool, 9)]

theorem exampleTypes_cases {t : GoType} {n : Nat} (h : exampleTypes t n) :
    (t = .iface ∧ n = 2) ∨ (t = .bool ∧ n = 4) ∨ (t = .ptr .bool ∧ n = 9) := by
  simpa [exampleTypes] using h

theorem describes_exampleTypes : Describes customEnv exampleTable exampleTypes where
  kind h := by rcases exampleTypes_cases h with ⟨rfl, rfl⟩ | ⟨rfl, rfl⟩ | ⟨rfl, rfl⟩ <;> rfl
  named h := by rcases exampleTypes_cases h with ⟨rfl, rfl⟩ | ⟨rfl, rfl⟩ | ⟨rfl, rfl⟩ <;> rfl
  unmarshaler h := by
    rcases exampleTypes_cases h with ⟨rfl, rfl⟩ | ⟨rfl, rfl⟩ | ⟨rfl, rfl⟩ <;> rfl
  unmarshaler_ptrTo h := by
    rcases exampleTypes_cases h with ⟨rfl, rfl⟩ | ⟨rfl, rfl⟩ | ⟨rfl, rfl⟩ <;> rfl
  elem h hu := by
    rcases exampleTypes_cases h with ⟨rfl, rfl⟩ | ⟨rfl, rfl⟩ | ⟨rfl, rfl⟩ <;> cases hu
    exact .tail _ (.head _)

/-- A variable `v interface{}` at address `0`, holding a `*bool` that points to the `bool`
at address `1`, as the heap model has it. -/
def ifaceHeap : List Cell := [.iface (some (9, .ptr (some 1))), .other]

/-- The same variable as the tree model has it. -/
def ifaceValue : Value := .iface (some (.ptr .bool, .ptr (some (.bool false))))

/-- `indirect(v, false)` of the variable `v interface{}` holding a `*bool`: the two models
go into the interface and down the pointer, and stop at the `bool`, the tree model at the
path `[dyn, deref]` and the heap model at the variable at address `1`. -/
theorem indirect_refines_iface :
    Describes customEnv exampleTable exampleTypes ∧
      Lay customEnv exampleTable exampleTypes ifaceHeap (.var 2 0) .iface ifaceValue [0, 1] ∧
      Cursor customEnv exampleTable exampleTypes ifaceHeap (.var 2 0) .iface ifaceValue
        (.loc .iface [] true) (.var 2 0) ∧
      BinDecoder.indirect customEnv 3 (.loc .iface [] true) false ifaceValue =
        some (.ok ⟨none, .loc .bool [.dyn, .deref] true, ifaceValue⟩) ∧
      indirect exampleTable 3 (.var 2 0) false ifaceHeap = some (.ok ⟨none, .var 4 1, ifaceHeap⟩) ∧
      Refines customEnv exampleTable exampleTypes (.var 2 0) .iface
        (BinDecoder.indirect customEnv 3 (.loc .iface [] true) false ifaceValue)
        (indirect exampleTable 3 (.var 2 0) false ifaceHeap) :=
  have hl : Lay customEnv exampleTable exampleTypes ifaceHeap (.var 2 0) .iface ifaceValue
      [0, 1] :=
    .iface rfl (.head _) rfl rfl
      (.ptr rfl (.tail _ (.tail _ (.head _))) rfl rfl
        (.other rfl (.tail _ (.head _)) (by decide) (by decide) rfl) (by decide)) (by decide)
  ⟨describes_exampleTypes, hl, ⟨rfl, _, _, .nil⟩, rfl, rfl,
    indirect_refines describes_exampleTypes false (.var 2 0) .iface 3 hl ⟨rfl, _, _, .nil⟩⟩

end Heap

end BinDecoder
