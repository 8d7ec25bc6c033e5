import ExamplePrograms.Lib.SortedMap
import Mathlib.Algebra.Group.Nat.Defs
import Mathlib.Data.List.Induction

/-!
# Typed records in one store

`trait-usage/src/main.rs` keeps records of two types in one tree. The key of a record is its type with
its name; `store_rec` and `find_rec` are generic over the type, and `main` reads all records of a type
by a scan that starts at the key without a name and breaks at the first key of another type.

`sled` and `bincode` are not part of the program. `Sled` and `Bincode` are what it uses of them, and
`Lawful` is what it relies on: a map that is ordered by the bytes of its keys, and the default encoding,
which can be decoded. A `panic!` of an `unwrap` gives no result here.
-/

set_option autoImplicit false

namespace ExamplePrograms.Rust.TraitUsage

open scoped ExamplePrograms.Lib.SortedMap

/-- A `String`. It has at most `isize::MAX` bytes. -/
structure RString where
  text : String
  within : text.toByteArray.size < 2 ^ 63
  deriving DecidableEq

/-- The bytes of a string. -/
def RString.bytes (s : RString) : List UInt8 := s.text.toByteArray.data.toList

/-- `One`. -/
structure One where
  name : RString
  deriving DecidableEq

/-- `Two`. -/
structure Two where
  name : RString
  deriving DecidableEq

/-- `KeyType`. -/
inductive KeyType where
  | one
  | two
  | three
  deriving DecidableEq, Repr

/-- `Key`. -/
structure Key where
  keyType : KeyType
  name : Option RString
  deriving DecidableEq

/-- The trait `Keyed`: a record knows its key. -/
class Keyed (T : Type) where
  storeKey : T → Key

instance : Keyed One := ⟨fun rec => ⟨.one, some rec.name⟩⟩

instance : Keyed Two := ⟨fun rec => ⟨.two, some rec.name⟩⟩

/-! ## The libraries -/

/-- What the tree stores. -/
abbrev Bytes := List UInt8

/-- `serialize` and `deserialize` at a type. -/
structure Codec (T : Type) where
  serialize : T → Bytes
  deserialize : Bytes → Option T

/-- The codecs of the types that are stored. -/
structure Bincode where
  key : Codec Key
  one : Codec One
  two : Codec Two

/-- The `n` bytes of a number, the low one first. -/
def littleEndian : Nat → Nat → Bytes
  | 0, _ => []
  | n + 1, x => UInt8.ofNat x :: littleEndian n (x / 256)

/-- The length as an `u64` and the bytes. -/
def encodeString (s : RString) : Bytes := littleEndian 8 s.bytes.length ++ s.bytes

/-- The index of a variant. -/
def KeyType.index : KeyType → Nat
  | one => 0
  | two => 1
  | three => 2

/-- The option behind a byte that says whether it is there. -/
def encodeName : Option RString → Bytes
  | none => [0]
  | some name => 1 :: encodeString name

/-- The variant as an `u32` and the option. -/
def encodeKey (key : Key) : Bytes := littleEndian 4 key.keyType.index ++ encodeName key.name

/-- The codec writes `encode` and reads it back. -/
structure Codec.Lawful {T : Type} (codec : Codec T) (encode : T → Bytes) : Prop where
  serialize : ∀ x, codec.serialize x = encode x
  deserialize : ∀ x, codec.deserialize (encode x) = some x

/-- The codecs write the format of bincode. -/
structure Bincode.Lawful (b : Bincode) : Prop where
  key : b.key.Lawful encodeKey
  one : b.one.Lawful fun rec => encodeString rec.name
  two : b.two.Lawful fun rec => encodeString rec.name

/-- What the program uses of `sled`. -/
structure Sled (Tree : Type) where
  empty : Tree
  set : Tree → Bytes → Bytes → Tree
  get : Tree → Bytes → Option Bytes
  scan : Tree → Bytes → List (Bytes × Bytes)

/-- The tree is an ordered map. -/
structure Sled.Lawful {Tree : Type} (sled : Sled Tree) : Prop where
  get_empty : ∀ k, sled.get sled.empty k = none
  get_set : ∀ db k v k', sled.get (sled.set db k v) k' = if k' = k then some v else sled.get db k'
  mem_scan : ∀ db k e, e ∈ sled.scan db k ↔ k ≤ e.1 ∧ sled.get db e.1 = some e.2
  scan_sorted : ∀ db k, (sled.scan db k).Pairwise fun e e' => e.1 < e'.1

/-! ## The program -/

section Program

variable {Tree : Type} (sled : Sled Tree) (b : Bincode)

/-- `store_rec`. -/
def storeRec {T : Type} [Keyed T] (codec : Codec T) (db : Tree) (rec : T) : Tree :=
  sled.set db (b.key.serialize (Keyed.storeKey rec)) (codec.serialize rec)

/-- The inner option is the result; a value that cannot be decoded is a panic. -/
def findRec {K T : Type} (keys : Codec K) (codec : Codec T) (db : Tree) (key : K) :
    Option (Option T) :=
  match sled.get db (keys.serialize key) with
  | some v => (codec.deserialize v).map some
  | none => some none

/-- The loop of `main` over the entries of a scan: what it prints for each entry before it breaks. -/
def scanLoop {T : Type} (keyType : KeyType) (codec : Codec T) :
    List (Bytes × Bytes) → Option (List (Option RString × T))
  | [] => some []
  | (k, v) :: iter => do
      let key ← b.key.deserialize k
      if key.keyType = keyType then
        let r ← codec.deserialize v
        let rest ← scanLoop keyType codec iter
        return (key.name, r) :: rest
      else return []

/-- The two loops of `main`. -/
def scanOnes (db : Tree) : Option (List (Option RString × One)) :=
  scanLoop b .one b.one (sled.scan db (b.key.serialize ⟨.one, none⟩))

/-- The second scan of `main`. -/
def scanTwos (db : Tree) : Option (List (Option RString × Two)) :=
  scanLoop b .two b.two (sled.scan db (b.key.serialize ⟨.two, none⟩))

/-- A record of one of the two types. -/
inductive Rec where
  | one (rec : One)
  | two (rec : Two)

/-- The store of a record of either type. -/
def Rec.store (db : Tree) : Rec → Tree
  | .one rec => storeRec sled b b.one db rec
  | .two rec => storeRec sled b b.two db rec

/-- The tree after a sequence of `store_rec` calls. -/
def stored (recs : List Rec) : Tree := recs.foldl (Rec.store sled b) sled.empty

end Program

/-! ## The order of the keys -/

/-- The number of bytes of an integer. -/
theorem length_littleEndian (n x : Nat) : (littleEndian n x).length = n := by
  induction n generalizing x with
  | zero => rfl
  | succ n ih => rw [littleEndian, List.length_cons, ih]

/-- A string is determined by its bytes. -/
theorem RString.ext_bytes {s s' : RString} (h : s.bytes = s'.bytes) : s = s' := by
  obtain ⟨text, within⟩ := s
  obtain ⟨text', within'⟩ := s'
  have harray : text.toByteArray = text'.toByteArray := ByteArray.ext (Array.toList_inj.1 h)
  obtain rfl := String.toByteArray_inj.1 harray
  rfl

/-- The length in front has a fixed size, so the bytes of the string can be read off. -/
theorem encodeString_inj {s s' : RString} (h : encodeString s = encodeString s') : s = s' := by
  have hlength : (littleEndian 8 s.bytes.length).length = (littleEndian 8 s'.bytes.length).length := by
    rw [length_littleEndian, length_littleEndian]
  exact RString.ext_bytes (List.append_inj h hlength).2

/-- A key type is determined by its index. -/
theorem KeyType.index_inj {t t' : KeyType} (h : t.index = t'.index) : t = t' := by
  cases t <;> cases t' <;> first | rfl | cases h

/-- The first byte of a key is the index of its type. -/
theorem encodeKey_eq_cons (key : Key) :
    ∃ rest, encodeKey key = UInt8.ofNat key.keyType.index :: rest := ⟨_, rfl⟩

/-- Key types are ordered by their first byte. -/
theorem KeyType.ofNat_index_lt {t t' : KeyType} (h : t.index < t'.index) :
    UInt8.ofNat t.index < UInt8.ofNat t'.index := by
  revert h
  cases t <;> cases t' <;> decide

/-- All keys of a type come before those of a type behind it. -/
theorem encodeKey_lt {key key' : Key} (h : key.keyType.index < key'.keyType.index) :
    encodeKey key < encodeKey key' := by
  obtain ⟨rest, hrest⟩ := encodeKey_eq_cons key
  obtain ⟨rest', hrest'⟩ := encodeKey_eq_cons key'
  rw [hrest, hrest', List.cons_lt_cons_iff]
  exact Or.inl (KeyType.ofNat_index_lt h)

/-- **A key is determined by its encoding.** -/
theorem encodeKey_inj {key key' : Key} (h : encodeKey key = encodeKey key') : key = key' := by
  have htype : key.keyType = key'.keyType := by
    apply KeyType.index_inj
    rcases Nat.lt_trichotomy key.keyType.index key'.keyType.index with hlt | heq | hgt
    · exact absurd h (ne_of_lt (encodeKey_lt hlt))
    · exact heq
    · exact absurd h (ne_of_gt (encodeKey_lt hgt))
  obtain ⟨t, name⟩ := key
  obtain ⟨t', name'⟩ := key'
  obtain rfl : t = t' := htype
  have hname := List.append_cancel_left h
  cases name with
  | none =>
    cases name' with
    | none => rfl
    | some s' => cases hname
  | some s =>
    cases name' with
    | none => cases hname
    | some s' => rw [encodeString_inj (List.cons.inj hname).2]

/-- A scan from the key without a name finds all keys of the type. -/
theorem encodeKey_none_le (t : KeyType) (name : Option RString) :
    encodeKey ⟨t, none⟩ ≤ encodeKey ⟨t, name⟩ := by
  cases name with
  | none => exact le_refl _
  | some s =>
    apply le_of_lt
    have hbyte : ([0] : Bytes) < 1 :: encodeString s := by
      rw [List.cons_lt_cons_iff]
      exact Or.inl (by decide)
    cases t with
    | one => exact List.append_left_lt hbyte
    | two => exact List.append_left_lt hbyte
    | three => exact List.append_left_lt hbyte

/-! ## The tree behind a sequence of calls -/

/-- The key of a record. -/
def Rec.key : Rec → Key
  | .one rec => Keyed.storeKey rec
  | .two rec => Keyed.storeKey rec

/-- The encoded record. -/
def Rec.value : Rec → Bytes
  | .one rec => encodeString rec.name
  | .two rec => encodeString rec.name

/-- The last record of a sequence with a key. -/
def lastWith (recs : List Rec) (key : Key) : Option Rec := (recs.filter fun r => r.key = key).getLast?

/-- The last record with a key, one record further. -/
theorem lastWith_concat (recs : List Rec) (r : Rec) (key : Key) :
    lastWith (recs ++ [r]) key = if r.key = key then some r else lastWith recs key := by
  rw [lastWith, List.filter_append, List.filter_cons, List.filter_nil]
  split
  · next h =>
    rw [if_pos (of_decide_eq_true h), List.getLast?_concat]
  · next h =>
    rw [if_neg fun heq => h (decide_eq_true heq), List.append_nil, lastWith]

section Store

variable {Tree : Type} {sled : Sled Tree} {b : Bincode}

/-- A store is an insertion under the encoded key. -/
theorem Rec.store_eq (hb : b.Lawful) (db : Tree) (r : Rec) :
    r.store sled b db = sled.set db (encodeKey r.key) r.value := by
  cases r with
  | one rec =>
    rw [Rec.store, storeRec, hb.key.serialize, hb.one.serialize]
    rfl
  | two rec =>
    rw [Rec.store, storeRec, hb.key.serialize, hb.two.serialize]
    rfl

/-- The entries of the tree are the last records of their keys. -/
theorem get_stored (hs : sled.Lawful) (hb : b.Lawful) (recs : List Rec) (k : Bytes) (v : Bytes) :
    sled.get (stored sled b recs) k = some v ↔
      ∃ key r, k = encodeKey key ∧ lastWith recs key = some r ∧ v = r.value := by
  induction recs using List.reverseRecOn with
  | nil =>
    rw [stored, List.foldl_nil, hs.get_empty]
    exact iff_of_false (fun h => nomatch h) fun ⟨_, _, _, h, _⟩ => nomatch h
  | append_singleton recs r ih =>
    rw [stored, List.foldl_concat, r.store_eq hb, hs.get_set]
    split
    · next hk =>
      -- the last call wrote this key
      constructor
      · intro h
        cases h
        refine ⟨r.key, r, hk, ?_, rfl⟩
        rw [lastWith_concat, if_pos rfl]
      · rintro ⟨key, r', hk', hlast, rfl⟩
        obtain rfl := encodeKey_inj (hk.symm.trans hk')
        rw [lastWith_concat, if_pos rfl] at hlast
        cases hlast
        rfl
    · next hk =>
      rw [← stored, ih]
      constructor
      · rintro ⟨key, r', rfl, hlast, rfl⟩
        refine ⟨key, r', rfl, ?_, rfl⟩
        rw [lastWith_concat, if_neg fun h => hk (congrArg encodeKey h).symm, hlast]
      · rintro ⟨key, r', rfl, hlast, rfl⟩
        rw [lastWith_concat, if_neg fun h => hk (congrArg encodeKey h).symm] at hlast
        exact ⟨key, r', rfl, hlast, rfl⟩

/-- The last record with a key has that key. -/
theorem key_of_lastWith {recs : List Rec} {key : Key} {r : Rec} (h : lastWith recs key = some r) :
    r.key = key :=
  of_decide_eq_true (List.mem_filter.1 (List.mem_of_getLast? h)).2

end Store

/-! ## Records of one type -/

/-- A type of records: what its keys and values are, and how it stands among all records. -/
structure RecordType (T : Type) where
  keyType : KeyType
  codec : Bincode → Codec T
  name : T → RString
  wrap : T → Rec
  unwrap : Rec → Option T
  unwrap_eq_some_iff : ∀ r x, unwrap r = some x ↔ r = wrap x
  key_wrap : ∀ x, (wrap x).key = ⟨keyType, some (name x)⟩
  of_keyType : ∀ r : Rec, r.key.keyType = keyType → ∃ x, r = wrap x
  deserialize_value : ∀ b : Bincode, b.Lawful → ∀ x, (codec b).deserialize (wrap x).value = some x

/-- The records of type `One`. -/
def ones : RecordType One where
  keyType := .one
  codec := Bincode.one
  name := One.name
  wrap := .one
  unwrap
    | .one rec => some rec
    | .two _ => none
  unwrap_eq_some_iff r x := by cases r <;> simp
  key_wrap _ := rfl
  of_keyType r h := by
    cases r with
    | one rec => exact ⟨rec, rfl⟩
    | two rec => cases h
  deserialize_value _ hb x := hb.one.deserialize x

/-- The records of type `Two`. -/
def twos : RecordType Two where
  keyType := .two
  codec := Bincode.two
  name := Two.name
  wrap := .two
  unwrap
    | .one _ => none
    | .two rec => some rec
  unwrap_eq_some_iff r x := by cases r <;> simp
  key_wrap _ := rfl
  of_keyType r h := by
    cases r with
    | one rec => cases h
    | two rec => exact ⟨rec, rfl⟩
  deserialize_value _ hb x := hb.two.deserialize x

/-- The last record of the type in a sequence that has the name. -/
def RecordType.last {T : Type} (R : RecordType T) (recs : List Rec) (name : RString) : Option T :=
  ((recs.filterMap R.unwrap).filter fun x => R.name x = name).getLast?

/-- The last record of a type with a name, one record further. -/
theorem RecordType.last_concat {T : Type} (R : RecordType T) (recs : List Rec) (r : Rec)
    (name : RString) :
    R.last (recs ++ [r]) name =
      match R.unwrap r with
      | some x => if R.name x = name then some x else R.last recs name
      | none => R.last recs name := by
  rw [last, List.filterMap_append, List.filterMap_cons, List.filterMap_nil]
  cases R.unwrap r with
  | none => rw [List.append_nil, last]
  | some x =>
    rw [List.filter_append, List.filter_cons, List.filter_nil]
    split
    · next h =>
      rw [List.getLast?_concat]
      exact (if_pos (of_decide_eq_true h)).symm
    · next h =>
      rw [List.append_nil]
      exact (if_neg fun heq => h (decide_eq_true heq)).symm

/-- Records of other types do not matter for a key of this type. -/
theorem RecordType.lastWith_eq {T : Type} (R : RecordType T) (recs : List Rec) (name : RString) :
    lastWith recs ⟨R.keyType, some name⟩ = (R.last recs name).map R.wrap := by
  induction recs using List.reverseRecOn with
  | nil => rfl
  | append_singleton recs r ih =>
    rw [lastWith_concat, R.last_concat]
    cases hr : R.unwrap r with
    | none =>
      have hne : r.key ≠ ⟨R.keyType, some name⟩ := by
        intro hkey
        obtain ⟨x, rfl⟩ := R.of_keyType r (congrArg Key.keyType hkey)
        rw [(R.unwrap_eq_some_iff _ x).2 rfl] at hr
        cases hr
      rw [if_neg hne, ih]
    | some x =>
      obtain rfl := (R.unwrap_eq_some_iff r x).1 hr
      rw [R.key_wrap]
      by_cases hname : R.name x = name
      · have hkey : (⟨R.keyType, some (R.name x)⟩ : Key) = ⟨R.keyType, some name⟩ := by rw [hname]
        have hlast : (if R.name x = name then some x else R.last recs name) = some x := if_pos hname
        rw [if_pos hkey]
        exact (congrArg (Option.map R.wrap) hlast).symm
      · have hne : (⟨R.keyType, some (R.name x)⟩ : Key) ≠ ⟨R.keyType, some name⟩ := by
          intro hkey
          exact hname (Option.some.inj (congrArg Key.name hkey))
        rw [if_neg hne, ih]
        exact (congrArg (Option.map R.wrap) (if_neg hname)).symm

/-- The last record with a name has that name. -/
theorem RecordType.name_of_last {T : Type} (R : RecordType T) {recs : List Rec} {name : RString}
    {x : T} (h : R.last recs name = some x) : R.name x = name :=
  of_decide_eq_true (List.mem_filter.1 (List.mem_of_getLast? h)).2

/-! ## The results of the program -/

section Results

variable {Tree : Type} {sled : Sled Tree} {b : Bincode} {T : Type}

/-- **The lookup of a record** gives the last one of its type with the name. -/
theorem RecordType.findRec_stored (R : RecordType T) (hs : sled.Lawful) (hb : b.Lawful)
    (recs : List Rec) (name : RString) :
    findRec sled b.key (R.codec b) (stored sled b recs) ⟨R.keyType, some name⟩ =
      some (R.last recs name) := by
  rw [findRec, hb.key.serialize]
  cases hget : sled.get (stored sled b recs) (encodeKey ⟨R.keyType, some name⟩) with
  | some v =>
    obtain ⟨key, r, hkey, hlast, rfl⟩ := (get_stored hs hb recs _ v).1 hget
    obtain rfl := encodeKey_inj hkey
    rw [R.lastWith_eq] at hlast
    obtain ⟨x, hx, rfl⟩ := Option.map_eq_some_iff.1 hlast
    rw [hx]
    exact congrArg (Option.map some) (R.deserialize_value b hb x)
  | none =>
    cases hlast : R.last recs name with
    | none => rfl
    | some x =>
      -- a last record would be in the tree
      have hwith : lastWith recs ⟨R.keyType, some name⟩ = some (R.wrap x) := by
        rw [R.lastWith_eq, hlast]
        rfl
      rw [(get_stored hs hb recs _ _).2 ⟨_, _, rfl, hwith, rfl⟩] at hget
      cases hget

/-- The entry of a stored record. -/
def Rec.entry (r : Rec) : Bytes × Bytes := (encodeKey r.key, r.value)

/-- The loop reads the records of the type and breaks at the first other key; the entries come in the
order of their keys and not below the key without a name, so that no record of the type is left. -/
theorem RecordType.scanLoop_entries (R : RecordType T) (hb : b.Lawful) (rs : List Rec)
    (hsorted : rs.Pairwise fun r r' => encodeKey r.key < encodeKey r'.key)
    (hstart : ∀ r ∈ rs, encodeKey ⟨R.keyType, none⟩ ≤ encodeKey r.key) :
    ∃ xs : List T, scanLoop b R.keyType (R.codec b) (rs.map Rec.entry) =
        some (xs.map fun x => (some (R.name x), x)) ∧
      ∃ rest, rs = xs.map R.wrap ++ rest ∧ ∀ x, R.wrap x ∉ rest := by
  induction rs with
  | nil => exact ⟨[], rfl, [], rfl, fun _ => List.not_mem_nil⟩
  | cons r rs ih =>
    obtain ⟨hlt, hrs⟩ := List.pairwise_cons.1 hsorted
    obtain ⟨hr, hfrom⟩ := List.forall_mem_cons.1 hstart
    have hkey : b.key.deserialize (encodeKey r.key) = some r.key := hb.key.deserialize r.key
    rw [List.map_cons, Rec.entry, scanLoop, hkey, Option.bind_eq_bind, Option.bind_some]
    by_cases htype : r.key.keyType = R.keyType
    · obtain ⟨x, rfl⟩ := R.of_keyType r htype
      obtain ⟨xs, hloop, rest, hrest, hnone⟩ := ih hrs hfrom
      refine ⟨x :: xs, ?_, rest, ?_, hnone⟩
      · rw [if_pos htype, R.deserialize_value b hb, hloop, R.key_wrap]
        rfl
      · rw [hrest]
        rfl
    · refine ⟨[], if_neg htype, r :: rs, rfl, ?_⟩
      -- the type of this key comes behind, and so do all further keys
      have hbehind : R.keyType.index < r.key.keyType.index := by
        rcases Nat.lt_trichotomy R.keyType.index r.key.keyType.index with hlt | heq | hgt
        · exact hlt
        · exact absurd (KeyType.index_inj heq).symm htype
        · exact absurd (encodeKey_lt hgt) (not_lt.2 hr)
      have hbelow : ∀ x, encodeKey (R.wrap x).key < encodeKey r.key := by
        intro x
        rw [R.key_wrap]
        exact encodeKey_lt hbehind
      intro x hx
      rcases List.mem_cons.1 hx with rfl | hx
      · exact lt_irrefl _ (hbelow x)
      · exact lt_asymm (hbelow x) (hlt _ hx)

/-- The entries of a scan are those of last records. -/
theorem entries_of_last (recs : List Rec) {entries : List (Bytes × Bytes)}
    (h : ∀ e ∈ entries, ∃ key r, e.1 = encodeKey key ∧ lastWith recs key = some r ∧ e.2 = r.value) :
    ∃ rs : List Rec, entries = rs.map Rec.entry ∧ ∀ r ∈ rs, lastWith recs r.key = some r := by
  induction entries with
  | nil => exact ⟨[], rfl, fun _ hr => absurd hr List.not_mem_nil⟩
  | cons e entries ih =>
    obtain ⟨he, hentries⟩ := List.forall_mem_cons.1 h
    obtain ⟨rs, hrs, hlast⟩ := ih hentries
    obtain ⟨key, r, hkey, hr, hvalue⟩ := he
    obtain rfl := key_of_lastWith hr
    refine ⟨r :: rs, ?_, List.forall_mem_cons.2 ⟨hr, hlast⟩⟩
    rw [List.map_cons, ← hrs]
    exact congrArg (· :: entries) (Prod.ext hkey hvalue)

/-- **The scan of a type** gives the last record of every name once. -/
theorem RecordType.scan_stored (R : RecordType T) (hs : sled.Lawful) (hb : b.Lawful)
    (recs : List Rec) :
    ∃ xs : List T,
      scanLoop b R.keyType (R.codec b)
          (sled.scan (stored sled b recs) (b.key.serialize ⟨R.keyType, none⟩)) =
        some (xs.map fun x => (some (R.name x), x)) ∧
      (xs.map R.name).Nodup ∧ ∀ x, x ∈ xs ↔ R.last recs (R.name x) = some x := by
  rw [hb.key.serialize]
  obtain ⟨rs, hrs, hlast⟩ := entries_of_last recs fun e he =>
    (get_stored hs hb recs e.1 e.2).1 ((hs.mem_scan _ _ e).1 he).2
  have hsorted := hs.scan_sorted (stored sled b recs) (encodeKey ⟨R.keyType, none⟩)
  have hmem : ∀ r ∈ rs, encodeKey ⟨R.keyType, none⟩ ≤ encodeKey r.key := by
    intro r hr
    have he : r.entry ∈ sled.scan (stored sled b recs) (encodeKey ⟨R.keyType, none⟩) := by
      rw [hrs]
      exact List.mem_map_of_mem hr
    exact ((hs.mem_scan _ _ _).1 he).1
  rw [hrs, List.pairwise_map] at hsorted
  obtain ⟨xs, hloop, rest, rfl, hnone⟩ := R.scanLoop_entries hb rs hsorted hmem
  refine ⟨xs, ?_, ?_, ?_⟩
  · rw [hrs]
    exact hloop
  · -- two records of one name would have one key
    have hkeys := List.pairwise_map.1 (List.pairwise_append.1 hsorted).1
    refine List.pairwise_map.2 (hkeys.imp ?_)
    intro x x' hlt hname
    have hkey : (R.wrap x).key = (R.wrap x').key := by
      rw [R.key_wrap, R.key_wrap, hname]
    exact absurd (congrArg encodeKey hkey) (ne_of_lt hlt)
  · intro x
    constructor
    · intro hx
      have hwith := hlast (R.wrap x) (List.mem_append_left rest (List.mem_map_of_mem hx))
      rw [R.key_wrap, R.lastWith_eq] at hwith
      obtain ⟨x', hx', hwrap⟩ := Option.map_eq_some_iff.1 hwith
      have heq := (R.unwrap_eq_some_iff _ x).2 hwrap
      rw [(R.unwrap_eq_some_iff _ x').2 rfl] at heq
      rw [hx', heq]
    · intro hx
      have hwith : lastWith recs (R.wrap x).key = some (R.wrap x) := by
        rw [R.key_wrap, R.lastWith_eq, hx]
        rfl
      have hget := (get_stored hs hb recs _ _).2 ⟨_, _, rfl, hwith, rfl⟩
      have hle : encodeKey ⟨R.keyType, none⟩ ≤ encodeKey (R.wrap x).key := by
        rw [R.key_wrap]
        exact encodeKey_none_le R.keyType (some (R.name x))
      have he : (R.wrap x).entry ∈ (xs.map R.wrap ++ rest).map Rec.entry := by
        rw [← hrs]
        exact (hs.mem_scan _ _ _).2 ⟨hle, hget⟩
      obtain ⟨r, hr, hentry⟩ := List.mem_map.1 he
      have hkey := encodeKey_inj (congrArg Prod.fst hentry)
      -- the record of this entry is the last one with its key, so it is this record
      have hrlast := hlast r hr
      rw [hkey, hwith] at hrlast
      obtain rfl := Option.some.inj hrlast
      rcases List.mem_append.1 hr with hr | hr
      · obtain ⟨x', hx', hwrap⟩ := List.mem_map.1 hr
        have heq := (R.unwrap_eq_some_iff _ x').2 hwrap.symm
        rw [(R.unwrap_eq_some_iff _ x).2 rfl] at heq
        rw [Option.some.inj heq]
        exact hx'
      · exact absurd hr (hnone x)

/-- **The visits of a scan** are the names and the last records of the type. -/
theorem RecordType.visits_stored (R : RecordType T) (hs : sled.Lawful) (hb : b.Lawful)
    (recs : List Rec) :
    ∃ visits,
      scanLoop b R.keyType (R.codec b)
          (sled.scan (stored sled b recs) (b.key.serialize ⟨R.keyType, none⟩)) = some visits ∧
      (visits.map Prod.fst).Nodup ∧
      ∀ v, v ∈ visits ↔ ∃ name x, v = (some name, x) ∧ R.last recs name = some x := by
  obtain ⟨xs, hscan, hnodup, hmem⟩ := R.scan_stored hs hb recs
  refine ⟨_, hscan, ?_, ?_⟩
  · rw [List.map_map]
    exact List.pairwise_map.2 ((List.pairwise_map.1 hnodup).imp fun hne h => hne (Option.some.inj h))
  · intro v
    rw [List.mem_map]
    constructor
    · rintro ⟨x, hx, rfl⟩
      exact ⟨R.name x, x, rfl, (hmem x).1 hx⟩
    · rintro ⟨name, x, rfl, hlast⟩
      obtain rfl := R.name_of_last hlast
      exact ⟨x, (hmem x).2 hlast, rfl⟩

end Results

/-! ## A tree and an encoding -/

open Lib

/-- A tree of sorted entries. -/
def sortedTree : Sled {l : List (Bytes × Bytes) // SortedMap.Sorted l} where
  empty := ⟨[], SortedMap.sorted_nil⟩
  set db k v := ⟨SortedMap.upsert k (fun _ => v) db.1, db.2.upsert k _⟩
  get db k := SortedMap.find k db.1
  scan db k := SortedMap.atLeast k db.1

/-- The sorted map is an ordered map. -/
theorem sortedTree_lawful : sortedTree.Lawful where
  get_empty _ := rfl
  get_set := by
    intro db k v k'
    split
    · next h =>
      subst h
      exact SortedMap.find_upsert_self db.2 k' _
    · next h => exact SortedMap.find_upsert_of_ne db.1 h _
  mem_scan := by
    intro db k e
    exact (SortedMap.mem_atLeast db.2).trans (and_congr_right' (SortedMap.find_eq_some_iff db.2).symm)
  scan_sorted db k := db.2.atLeast k

/-- The integer that some bytes encode. -/
def ofLittleEndian : Bytes → Nat
  | [] => 0
  | byte :: bytes => byte.toNat + 256 * ofLittleEndian bytes

/-- Integers are read back. -/
theorem ofLittleEndian_littleEndian (n : Nat) {x : Nat} (h : x < 256 ^ n) :
    ofLittleEndian (littleEndian n x) = x := by
  induction n generalizing x with
  | zero => exact (Nat.lt_one_iff.1 h).symm
  | succ n ih =>
    have hdiv : x / 256 < 256 ^ n := by
      apply Nat.div_lt_of_lt_mul
      rwa [Nat.mul_comm, ← Nat.pow_succ]
    rw [littleEndian, ofLittleEndian, ih hdiv]
    exact Nat.mod_add_div x 256

/-- The string at the head of some bytes. -/
def decodeString (bytes : Bytes) : Option RString := do
  let body := bytes.drop 8
  let length := ofLittleEndian (bytes.take 8)
  if body.length < length then none
  let text ← String.fromUTF8? (body.take length).toByteArray
  if h : text.toByteArray.size < 2 ^ 63 then some ⟨text, h⟩ else none

/-- The key type of an index. -/
def KeyType.ofIndex : Nat → Option KeyType
  | 0 => some one
  | 1 => some two
  | 2 => some three
  | _ => none

/-- The key that some bytes encode. -/
def decodeKey (bytes : Bytes) : Option Key := do
  let keyType ← KeyType.ofIndex (ofLittleEndian (bytes.take 4))
  match bytes.drop 4 with
  | 0 :: _ => some ⟨keyType, none⟩
  | 1 :: rest => (decodeString rest).map fun name => ⟨keyType, some name⟩
  | _ => none

/-- Strings are read back. -/
theorem decodeString_encodeString (s : RString) : decodeString (encodeString s) = some s := by
  have hlength : s.bytes.length < 256 ^ 8 := by
    have hwithin := s.within
    have hsize : s.bytes.length = s.text.toByteArray.size := Array.length_toList
    omega
  have htake : (encodeString s).take 8 = littleEndian 8 s.bytes.length :=
    List.take_left' (length_littleEndian 8 _)
  have hdrop : (encodeString s).drop 8 = s.bytes := List.drop_left' (length_littleEndian 8 _)
  have harray : s.bytes.toByteArray = s.text.toByteArray := by
    apply ByteArray.ext
    rw [List.data_toByteArray]
    exact Array.toArray_toList
  have htext : String.fromUTF8? s.text.toByteArray = some s.text := dif_pos s.text.isValidUTF8
  rw [decodeString, htake, hdrop, ofLittleEndian_littleEndian 8 hlength, List.take_length, harray,
    if_neg (Nat.lt_irrefl _), htext]
  exact dif_pos s.within

/-- Keys are read back. -/
theorem decodeKey_encodeKey (key : Key) : decodeKey (encodeKey key) = some key := by
  obtain ⟨t, name⟩ := key
  have htake : (encodeKey ⟨t, name⟩).take 4 = littleEndian 4 t.index :=
    List.take_left' (length_littleEndian 4 _)
  have hdrop : (encodeKey ⟨t, name⟩).drop 4 = encodeName name :=
    List.drop_left' (length_littleEndian 4 _)
  have hlt : t.index < 256 ^ 4 := by cases t <;> decide
  have hindex : KeyType.ofIndex t.index = some t := by cases t <;> rfl
  rw [decodeKey, htake, hdrop, ofLittleEndian_littleEndian 4 hlt, hindex, Option.bind_eq_bind,
    Option.bind_some]
  cases name with
  | none => rfl
  | some s =>
    simp only [encodeName, decodeString_encodeString, Option.map_some]

/-- A codec for a record that is its name. -/
def recordCodec {T : Type} (name : T → RString) (mk : RString → T) : Codec T where
  serialize rec := encodeString (name rec)
  deserialize bytes := (decodeString bytes).map mk

/-- The codec keeps the laws. -/
theorem recordCodec_lawful {T : Type} (name : T → RString) (mk : RString → T)
    (hmk : ∀ x, mk (name x) = x) :
    (recordCodec name mk).Lawful fun rec => encodeString (name rec) where
  serialize _ := rfl
  deserialize x := by
    simp only [recordCodec, decodeString_encodeString, Option.map_some, hmk]

/-- The encoding with its decoders. -/
def plainBincode : Bincode where
  key := ⟨encodeKey, decodeKey⟩
  one := recordCodec One.name One.mk
  two := recordCodec Two.name Two.mk

/-- The codecs write the format. -/
theorem plainBincode_lawful : plainBincode.Lawful where
  key := ⟨fun _ => rfl, decodeKey_encodeKey⟩
  one := recordCodec_lawful One.name One.mk fun _ => rfl
  two := recordCodec_lawful Two.name Two.mk fun _ => rfl

/-! ## The store -/

/-- Whatever records are stored in whatever order: a lookup finds the last record of the type under the
name, and the scan of a type reads each of its records once, with its name, and nothing else. -/
theorem records_share_store {Tree : Type} (sled : Sled Tree) (b : Bincode) (hs : sled.Lawful)
    (hb : b.Lawful) (recs : List Rec) :
    (∀ name, findRec sled b.key b.one (stored sled b recs) (⟨.one, some name⟩ : Key) =
      some (ones.last recs name)) ∧
    (∀ name, findRec sled b.key b.two (stored sled b recs) (⟨.two, some name⟩ : Key) =
      some (twos.last recs name)) ∧
    (∃ visits, scanOnes sled b (stored sled b recs) = some visits ∧ (visits.map Prod.fst).Nodup ∧
      ∀ v, v ∈ visits ↔ ∃ name x, v = (some name, x) ∧ ones.last recs name = some x) ∧
    ∃ visits, scanTwos sled b (stored sled b recs) = some visits ∧ (visits.map Prod.fst).Nodup ∧
      ∀ v, v ∈ visits ↔ ∃ name x, v = (some name, x) ∧ twos.last recs name = some x := by
  refine ⟨ones.findRec_stored hs hb recs, twos.findRec_stored hs hb recs, ?_, ?_⟩
  · exact ones.visits_stored hs hb recs
  · exact twos.visits_stored hs hb recs

/-- A record of the first type. -/
def o1 : One := ⟨⟨"o1", by decide⟩⟩

/-- A record of the second type. -/
def t1 : Two := ⟨⟨"t1", by decide⟩⟩

/-- The type `One` has a record of this name, the type `Two` has none. -/
theorem records_share_store_of_calls :
    findRec sortedTree plainBincode.key plainBincode.one
        (stored sortedTree plainBincode [.one o1, .two t1, .one o1]) (⟨.one, some o1.name⟩ : Key) =
      some (some o1) ∧
    findRec sortedTree plainBincode.key plainBincode.two
        (stored sortedTree plainBincode [.one o1, .two t1, .one o1]) (⟨.two, some o1.name⟩ : Key) =
      some none := by
  obtain ⟨hone, htwo, -, -⟩ := records_share_store sortedTree plainBincode sortedTree_lawful
    plainBincode_lawful [.one o1, .two t1, .one o1]
  have hlast : ones.last [.one o1, .two t1, .one o1] o1.name = some o1 := by decide
  have hnone : twos.last [.one o1, .two t1, .one o1] o1.name = none := by decide
  rw [hone, htwo, hlast, hnone]
  exact ⟨rfl, rfl⟩

end ExamplePrograms.Rust.TraitUsage
