import RenCrowCore.Lib.SortedMap

/-!
# JSON values

The values of a JSON document, with the operations a serializer's value type
offers: field access, insertion and removal in an object kept in key order,
the accessors `asStr`, `asU64`, …, and the compact printed form.

* `beq_iff_eq` makes equality of values decidable;
* `indexAssign_eq_some` and `asU64_ofNat` read back what was stored.
-/

namespace Serde

/-- A JSON number: an unsigned or a negative integer in 64 bits, or a finite
float, which is carried as the text it prints as. -/
inductive JsonNumber where
  | posInt (n : UInt64)
  | negInt (n : Int)
  | float (text : String)
deriving DecidableEq, Repr, Inhabited

/-- A JSON value.  The fields of an object are listed in the order the map
holds them. -/
inductive Json where
  | null
  | bool (b : Bool)
  | number (n : JsonNumber)
  | string (s : String)
  | array (items : List Json)
  | object (fields : List (String × Json))
deriving Repr, Inhabited

namespace Json

/-! ## Decidable equality -/

mutual

/-- Structural comparison of two values. -/
def beq : Json → Json → Bool
  | .null, .null => true
  | .bool a, .bool b => decide (a = b)
  | .number a, .number b => decide (a = b)
  | .string a, .string b => decide (a = b)
  | .array xs, .array ys => beqItems xs ys
  | .object fs, .object gs => beqFields fs gs
  | _, _ => false

/-- Structural comparison of the items of two arrays. -/
def beqItems : List Json → List Json → Bool
  | [], [] => true
  | x :: xs, y :: ys => beq x y && beqItems xs ys
  | _, _ => false

/-- Structural comparison of the fields of two objects. -/
def beqFields : List (String × Json) → List (String × Json) → Bool
  | [], [] => true
  | (k, x) :: fs, (l, y) :: gs => decide (k = l) && beq x y && beqFields fs gs
  | _, _ => false

end

mutual

theorem beq_iff_eq : ∀ a b : Json, beq a b = true ↔ a = b
  | .null, b | .bool _, b | .number _, b | .string _, b => by cases b <;> simp [beq]
  | .array xs, b => by
    cases b with
    | array ys => simp [beq, beqItems_iff_eq xs ys]
    | _ => simp [beq]
  | .object fs, b => by
    cases b with
    | object gs => simp [beq, beqFields_iff_eq fs gs]
    | _ => simp [beq]

theorem beqItems_iff_eq : ∀ xs ys : List Json, beqItems xs ys = true ↔ xs = ys
  | [], ys => by cases ys <;> simp [beqItems]
  | x :: xs, ys => by
    cases ys with
    | nil => simp [beqItems]
    | cons y ys => simp [beqItems, beq_iff_eq x y, beqItems_iff_eq xs ys]

theorem beqFields_iff_eq : ∀ fs gs : List (String × Json), beqFields fs gs = true ↔ fs = gs
  | [], gs => by cases gs <;> simp [beqFields]
  | (k, x) :: fs, gs => by
    cases gs with
    | nil => simp [beqFields]
    | cons g gs =>
      obtain ⟨l, y⟩ := g
      simp [beqFields, beq_iff_eq x y, beqFields_iff_eq fs gs, and_assoc]

end

instance : DecidableEq Json := fun a b => decidable_of_iff (beq a b = true) (beq_iff_eq a b)

/-! ## The fields of an object -/

/-- The members of an object, in map order. -/
abbrev Fields := SortedMap Json

/-! ## Accessors -/

/-- The members of an object. -/
def asObject : Json → Option Fields
  | .object fields => some fields
  | _ => none

/-- The text of a string. -/
def asStr : Json → Option String
  | .string s => some s
  | _ => none

/-- The value of an unsigned 64-bit integer. -/
def asU64 : Json → Option Nat
  | .number (.posInt n) => some n.toNat
  | _ => none

/-- The member of an object stored under a key, if the value is an object. -/
def get (key : String) (value : Json) : Option Json :=
  value.asObject.bind (SortedMap.get key)

/-- A natural number as a JSON integer. -/
def ofNat (n : Nat) : Json := .number (.posInt (UInt64.ofNat n))

/-- An integer as a JSON number. -/
def ofInt : Int → Json
  | .ofNat n => ofNat n
  | n => .number (.negInt n)

/-- An optional value; `none` prints as `null`. -/
def ofOption {α : Type} (encode : α → Json) : Option α → Json
  | none => .null
  | some value => encode value

/-- An object literal: its members, inserted one after the other. -/
def ofPairs (members : List (String × Json)) : Json :=
  .object (SortedMap.ofEntries (members.map fun member => (member.1, some member.2)))

/-- Reading through an index: `null` when there is no such member. -/
def index (key : String) (value : Json) : Json := (value.get key).getD .null

/-- Assignment through an index: `null` turns into an object, an object gets the
binding, and any other value makes the program panic. -/
def indexAssign (key : String) (value : Json) : Json → Option Json
  | .null => some (.object (SortedMap.insert key value []))
  | .object fields => some (.object (SortedMap.insert key value fields))
  | _ => none

@[simp] theorem asObject_object (fields : Fields) : asObject (.object fields) = some fields := rfl

@[simp] theorem asStr_string (s : String) : asStr (.string s) = some s := rfl

/-- A member of an object literal whose keys are different. -/
theorem index_ofPairs {key : String} {value : Json} {members : List (String × Json)}
    (hnd : (members.map Prod.fst).Nodup) (hmem : (key, value) ∈ members) :
    index key (ofPairs members) = value := by
  have hkeys : ((members.map fun member => (member.1, some member.2)).map Prod.fst).Nodup := by
    rw [List.map_map]
    exact hnd
  have hlookup : (members.map fun member => (member.1, some member.2)).lookup key =
      some (some value) := by
    induction members with
    | nil => cases hmem
    | cons member rest ih =>
      obtain ⟨k, v⟩ := member
      rw [List.map_cons, List.nodup_cons] at hnd
      rw [List.map_cons, List.lookup_cons]
      rcases List.mem_cons.mp hmem with heq | hrest
      · cases heq
        simp
      · have hne : (key == k) = false := by
          rw [beq_eq_false_iff_ne]
          intro h
          exact hnd.1 (h ▸ List.mem_map.mpr ⟨(key, value), hrest, rfl⟩)
        rw [hne]
        refine ih hnd.2 hrest ?_
        rw [List.map_map]
        exact hnd.2
  have hget := SortedMap.get_ofEntries key _ hkeys
  rw [hlookup] at hget
  exact congrArg (Option.getD · .null) hget

/-- An assignment that does not panic leaves an object with the new binding. -/
theorem indexAssign_eq_some {key : String} {value target target' : Json}
    (h : indexAssign key value target = some target') :
    ∃ fields, target' = .object fields ∧ SortedMap.get key fields = some value := by
  cases target with
  | null | object fields =>
    cases h
    exact ⟨_, rfl, SortedMap.get_insert_self _ _ _⟩
  | _ => cases h

theorem asU64_ofNat {n : Nat} (h : n < 2 ^ 64) : asU64 (ofNat n) = some n := by
  simp only [ofNat, asU64, UInt64.toNat_ofNat', Option.some.injEq]
  exact Nat.mod_eq_of_lt h

/-! ## The compact printed form -/

/-- One lower-case hexadecimal digit. -/
def hexDigit (n : Nat) : Char := "0123456789abcdef".toList.getD n '0'

/-- A character inside a string literal: quotes, backslashes and control
characters are escaped, everything else stands for itself. -/
def renderChar (c : Char) : List Char :=
  if c = '"' then ['\\', '"']
  else if c = '\\' then ['\\', '\\']
  else if c.toNat = 8 then ['\\', 'b']
  else if c.toNat = 9 then ['\\', 't']
  else if c.toNat = 10 then ['\\', 'n']
  else if c.toNat = 12 then ['\\', 'f']
  else if c.toNat = 13 then ['\\', 'r']
  else if c.toNat < 32 then
    ['\\', 'u', '0', '0', hexDigit (c.toNat / 16), hexDigit (c.toNat % 16)]
  else [c]

/-- A string literal. -/
def renderString (s : String) : List Char := '"' :: s.toList.flatMap renderChar ++ ['"']

/-- A number. -/
def renderNumber : JsonNumber → List Char
  | .posInt n => Nat.toDigits 10 n.toNat
  | .negInt n => (toString n).toList
  | .float text => text.toList

mutual

/-- The compact text of a value, without any blanks. -/
def render : Json → List Char
  | .null => ['n', 'u', 'l', 'l']
  | .bool true => ['t', 'r', 'u', 'e']
  | .bool false => ['f', 'a', 'l', 's', 'e']
  | .number n => renderNumber n
  | .string s => renderString s
  | .array items => '[' :: renderItems items ++ [']']
  | .object fields => '\x7b' :: renderFields fields ++ ['\x7d']

/-- The items of an array, separated by commas. -/
def renderItems : List Json → List Char
  | [] => []
  | [item] => render item
  | item :: rest => render item ++ ',' :: renderItems rest

/-- The members of an object, separated by commas. -/
def renderFields : List (String × Json) → List Char
  | [] => []
  | [(key, value)] => renderString key ++ ':' :: render value
  | (key, value) :: rest =>
    renderString key ++ ':' :: render value ++ ',' :: renderFields rest

end

/-- The compact text as a string. -/
def renderText (value : Json) : String := String.ofList value.render

end Json

end Serde
