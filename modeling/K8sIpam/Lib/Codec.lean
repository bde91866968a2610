import Mathlib

/-! # Texts that are read back

A codec writes values such that each is read back, whatever text follows it. A codec of a compound
type is put together from the codecs of its parts. -/

structure Codec (A : Type) where
  write : A → List Char
  read : List Char → Option (A × List Char)
  read_write : ∀ a rest, read (write a ++ rest) = some (a, rest)

namespace Codec

variable {A B : Type}

def char : Codec Char where
  write c := [c]
  read
    | [] => none
    | c :: rest => some (c, rest)
  read_write _ _ := rfl

/-- Values that are written as others. -/
def via (a : Codec A) (f : B → A) (g : A → Option B) (h : ∀ b, g (f b) = some b) : Codec B where
  write b := a.write (f b)
  read text := (a.read text).bind fun x => (g x.1).map (·, x.2)
  read_write b rest := by
    rw [a.read_write, Option.bind_some, h]
    rfl

def pair (a : Codec A) (b : Codec B) : Codec (A × B) where
  write x := a.write x.1 ++ b.write x.2
  read text := (a.read text).bind fun x => (b.read x.2).map fun y => ((x.1, y.1), y.2)
  read_write x rest := by
    rw [List.append_assoc, a.read_write, Option.bind_some, b.read_write]
    rfl

def option (a : Codec A) : Codec (Option A) where
  write
    | none => ['-']
    | some x => '+' :: a.write x
  read
    | '-' :: rest => some (none, rest)
    | '+' :: rest => (a.read rest).map fun x => (some x.1, x.2)
    | _ => none
  read_write x rest := by
    cases x with
    | none => rfl
    | some x => exact congrArg (Option.map fun x => (some x.1, x.2)) (a.read_write x rest)

/-! ## Lists -/

def readNat : List Char → Option (Nat × List Char)
  | '+' :: rest => (readNat rest).map fun x => (x.1 + 1, x.2)
  | '-' :: rest => some (0, rest)
  | _ => none

/-- Numbers are counted out. -/
def nat : Codec Nat where
  write n := List.replicate n '+' ++ ['-']
  read := readNat
  read_write n rest := by
    induction n with
    | zero => rfl
    | succ n ih => exact congrArg (Option.map fun x => (x.1 + 1, x.2)) ih

def readMany (a : Codec A) : Nat → List Char → Option (List A × List Char)
  | 0, text => some ([], text)
  | n + 1, text =>
    (a.read text).bind fun x => (a.readMany n x.2).map fun xs => (x.1 :: xs.1, xs.2)

theorem readMany_write (a : Codec A) (xs : List A) (rest : List Char) :
    a.readMany xs.length (xs.flatMap a.write ++ rest) = some (xs, rest) := by
  induction xs with
  | nil => rfl
  | cons x xs ih =>
    rw [List.flatMap_cons, List.append_assoc, List.length_cons, readMany, a.read_write,
      Option.bind_some, ih]
    rfl

/-- The number of items goes before them. -/
def list (a : Codec A) : Codec (List A) where
  write xs := nat.write xs.length ++ xs.flatMap a.write
  read text := (nat.read text).bind fun n => a.readMany n.1 n.2
  read_write xs rest := by
    rw [List.append_assoc, nat.read_write, Option.bind_some, readMany_write]

def string : Codec String :=
  char.list.via String.toList (some ∘ String.ofList) fun s => by
    rw [Function.comp_apply, String.ofList_toList]

section
variable {K V : Type} {cmp : K → K → Ordering} [Std.TransCmp cmp] [Std.LawfulEqCmp cmp]

theorem ofList_toList (m : Std.ExtTreeMap K V cmp) : Std.ExtTreeMap.ofList m.toList cmp = m := by
  classical
  refine Std.ExtTreeMap.ext_getElem? fun k => ?_
  cases hk : m[k]? with
  | some v =>
    exact Std.ExtTreeMap.getElem?_ofList_of_mem Std.ReflCmp.compare_self
      Std.ExtTreeMap.distinct_keys_toList (Std.ExtTreeMap.mem_toList_iff_getElem?_eq_some.mpr hk)
  | none =>
    refine Std.ExtTreeMap.getElem?_ofList_of_contains_eq_false ?_
    rw [Std.ExtTreeMap.map_fst_toList_eq_keys, Std.ExtTreeMap.contains_keys,
      ← Std.ExtTreeMap.isSome_getElem?_eq_contains, hk]
    rfl

/-- A map is the list of its entries. -/
def map (k : Codec K) (v : Codec V) : Codec (Std.ExtTreeMap K V cmp) :=
  (k.pair v).list.via Std.ExtTreeMap.toList (fun kvs => some (Std.ExtTreeMap.ofList kvs cmp))
    fun m => congrArg some (ofList_toList m)

end

end Codec
