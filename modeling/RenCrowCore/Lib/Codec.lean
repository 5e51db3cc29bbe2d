import RenCrowCore.Lib.Except
import RenCrowCore.Lib.Json

/-!
# Codecs between types and JSON values

A `Codec` is an encoder with a decoder; a value *round-trips* when decoding its
encoding gives it back.  The law is stated for one value at a time, because a
real codec may drop part of some values and still be faithful on the rest.

* `Codec.among` keeps a few known values apart;
* `Codec.list_roundTrips` lifts the law to arrays;
* `decodeField_of_get` and `decodeOptField_of_get` read one field of a struct
  back, required or optional.
-/

namespace Serde

open SortedMap

/-- An encoder with a decoder. -/
structure Codec (α : Type) where
  encode : α → Json
  decode : Json → Except String α

namespace Codec

variable {α : Type}

/-- Decoding the encoding gives the value back, and the encoding is not `null`,
which an optional field reads as absence. -/
structure RoundTrips (c : Codec α) (x : α) : Prop where
  decode_encode : c.decode (c.encode x) = .ok x
  encode_ne_null : c.encode x ≠ .null

/-- Strings. -/
def string : Codec String where
  encode s := .string s
  decode
    | .string s => .ok s
    | _ => .error "expected a string"

/-- Unsigned 64-bit integers. -/
def u64 : Codec UInt64 where
  encode n := .number (.posInt n)
  decode
    | .number (.posInt n) => .ok n
    | _ => .error "expected u64"

/-- Booleans. -/
def bool : Codec Bool where
  encode b := .bool b
  decode
    | .bool b => .ok b
    | _ => .error "expected a boolean"

/-- The items of an array, decoded one after the other. -/
def decodeItems (c : Codec α) : List Json → Except String (List α)
  | [] => .ok []
  | item :: rest => do
    let x ← c.decode item
    let xs ← decodeItems c rest
    return x :: xs

/-- Arrays. -/
def list (c : Codec α) : Codec (List α) where
  encode xs := .array (xs.map c.encode)
  decode
    | .array items => decodeItems c items
    | _ => .error "expected an array"

/-- A codec that knows a few values: one of them is written as its place among them. -/
def among [DecidableEq α] (known : List α) : Codec α where
  encode x := .ofNat (known.idxOf x)
  decode value :=
    match value.asU64.bind fun place => known[place]? with
    | some x => .ok x
    | none => .error "unknown value"

theorem among_roundTrips [DecidableEq α] {known : List α} {x : α} (h : x ∈ known)
    (hlen : known.length < 2 ^ 64) : (among known).RoundTrips x := by
  have hplace := (List.idxOf_lt_length_of_mem h).trans hlen
  refine ⟨?_, by simp [among, Json.ofNat]⟩
  simp only [among, Json.asU64_ofNat hplace, Option.bind_some, List.getElem?_idxOf h]

theorem string_roundTrips (s : String) : string.RoundTrips s := ⟨rfl, by simp [string]⟩

theorem decodeItems_map_encode {c : Codec α} {xs : List α} (h : ∀ x ∈ xs, c.RoundTrips x) :
    c.decodeItems (xs.map c.encode) = .ok xs := by
  induction xs with
  | nil => rfl
  | cons x xs ih =>
    have hx : c.decode (c.encode x) = .ok x := (h x (List.mem_cons_self ..)).decode_encode
    have hxs := ih fun y hy => h y (List.mem_cons_of_mem _ hy)
    rw [List.map_cons, decodeItems, hx, hxs]
    rfl

/-- An array round-trips when its items do. -/
theorem list_roundTrips {c : Codec α} {xs : List α} (h : ∀ x ∈ xs, c.RoundTrips x) :
    c.list.RoundTrips xs :=
  ⟨decodeItems_map_encode h, by simp [list]⟩

end Codec

/-! ## The fields of a struct -/

variable {α : Type}

/-- A required field. -/
def decodeField (c : Codec α) (key : String) (fields : Json.Fields) : Except String α :=
  match get key fields with
  | some value => c.decode value
  | none => .error ("missing field " ++ key)

/-- An optional field; `null` reads as absent. -/
def decodeOptField (c : Codec α) (key : String) (fields : Json.Fields) :
    Except String (Option α) :=
  match get key fields with
  | none => .ok none
  | some .null => .ok none
  | some value => (c.decode value).map some

/-- An optional field that is written as `null` when absent. -/
def encodeNullable (c : Codec α) : Option α → Json
  | none => .null
  | some x => c.encode x

variable {fields : Json.Fields} {key : String} {c : Codec α}

theorem decodeField_of_get {x : α} (hget : get key fields = some (c.encode x))
    (hx : c.RoundTrips x) : decodeField c key fields = .ok x := by
  rw [decodeField, hget]
  exact hx.decode_encode

theorem decodeOptField_of_some {x : α}
    (hget : get key fields = some (c.encode x)) (hx : c.RoundTrips x) :
    decodeOptField c key fields = .ok (some x) := by
  have hne := hx.encode_ne_null
  rw [decodeOptField, hget]
  have hstep : (c.decode (c.encode x)).map some = .ok (some x) := by rw [hx.decode_encode]; rfl
  cases he : c.encode x with
  | null => exact absurd he hne
  | _ => rw [← hstep, he]

/-- An optional field that its serializer skips when absent. -/
theorem decodeOptField_of_get {o : Option α}
    (hget : get key fields = o.map c.encode) (ho : ∀ x ∈ o, c.RoundTrips x) :
    decodeOptField c key fields = .ok o := by
  cases o with
  | none => rw [decodeOptField, hget]; rfl
  | some x => exact decodeOptField_of_some hget (ho x rfl)

/-- An optional field that its serializer writes as `null` when absent. -/
theorem decodeOptField_of_nullable {o : Option α}
    (hget : get key fields = some (encodeNullable c o)) (ho : ∀ x ∈ o, c.RoundTrips x) :
    decodeOptField c key fields = .ok o := by
  cases o with
  | none => rw [decodeOptField, hget]; rfl
  | some x => exact decodeOptField_of_some hget (ho x rfl)

end Serde
