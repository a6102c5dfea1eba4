import Tmms.Base.Bytes
import Tmms.Amf.Decode

/-!
# Properties of a decoded object

The accessors of a value answer with something empty when the value is of another type.  The
lookups of a property answer with a null pointer when there is none.
-/

namespace AMFAny

/-- `Name`. -/
def name : AMFAny → List UInt8
  | number name _ => name
  | boolean name _ => name
  | string name _ => name
  | object name _ => name
  | null => []
  | date name _ _ => name
  | longString name _ => name

/-- `String`, which is empty for what is no string. -/
def asString : AMFAny → List UInt8
  | string _ s => s
  | longString _ s => s
  | _ => []

/-- `Number`, which is 0 for what is no number. -/
def asNumber : AMFAny → Option UInt64
  | number _ n => n
  | _ => some 0

/-- `Object`, a null pointer for what is no object. -/
def asObject : AMFAny → Option (List AMFAny)
  | object _ properties => some properties
  | _ => none

end AMFAny

namespace AMFObject

mutual

/-- One turn of the loop of `Property(const std::string &)`: a property has the name, or one
inside it has. -/
def propertyIn (key : List UInt8) : AMFAny → Option AMFAny
  | .object name properties =>
    if name = key then some (.object name properties) else propertyNamed key properties
  | p => if p.name = key then some p else none

/-- `Property(const std::string &)`. -/
def propertyNamed (key : List UInt8) : List AMFAny → Option AMFAny
  | [] => none
  | p :: properties =>
    match propertyIn key p with
    | some q => some q
    | none => propertyNamed key properties

end

/-- `Property(int)`. -/
def propertyAt (index : Nat) (properties : List AMFAny) : Option AMFAny := properties[index]?

/-! ### Which properties exist -/

/-- A property of some name is among the properties, or inside an object among them. -/
inductive Named (key : List UInt8) : List AMFAny → Prop where
  | here {p : AMFAny} {ps : List AMFAny} (h : p ∈ ps) (hname : p.name = key) : Named key ps
  | inside {name : List UInt8} {qs ps : List AMFAny} (h : .object name qs ∈ ps)
      (hin : Named key qs) : Named key ps

/-- What is among some properties is among more of them. -/
theorem Named.mono {key : List UInt8} {ps qs : List AMFAny} (h : Named key ps)
    (hsub : ∀ p ∈ ps, p ∈ qs) :
  Named key qs
  := by
  cases h with
  | here h hname => apply Named.here (hsub _ h) hname
  | inside h hin => apply Named.inside (hsub _ h) hin

/-- The lookup in some properties succeeds where it does in one of them. -/
theorem propertyNamed_isSome_of_mem {key : List UInt8} {p : AMFAny} {ps : List AMFAny}
    (hp : p ∈ ps) (h : (propertyIn key p).isSome) :
  (propertyNamed key ps).isSome
  := by
  induction ps with
  | nil => cases hp
  | cons p' ps ih =>
      rw [propertyNamed]
      cases hin : propertyIn key p' with
      | some q => rfl
      | none =>
          cases hp with
          | head =>
              rw [hin] at h
              contradiction
          | tail _ hp => apply ih hp

/-- A property that has the name is found. -/
theorem propertyIn_of_name {key : List UInt8} {p : AMFAny} (h : p.name = key) :
  (propertyIn key p).isSome
  := by
  cases p with
  | object name properties =>
      rw [AMFAny.name] at h
      rw [propertyIn, if_pos h]
      rfl
  | _ =>
      rw [propertyIn, if_pos h]
      · rfl
      · rintro name properties ⟨⟩

/-- The lookup of a name finds a property exactly when there is one. -/
theorem propertyNamed_isSome_iff (key : List UInt8) (ps : List AMFAny) :
  (propertyNamed key ps).isSome ↔ Named key ps
  := by
  constructor
  · apply propertyNamed.induct key (fun p => (propertyIn key p).isSome → Named key [p])
      (fun ps => (propertyNamed key ps).isSome → Named key ps)
    · intro qs h
      apply Named.here (List.mem_singleton_self (.object key qs)) rfl
    · intro name qs hne ih h
      rw [propertyIn, if_neg hne] at h
      apply Named.inside (List.mem_singleton_self _) (ih h)
    · intro p hobject hname h
      apply Named.here (List.mem_singleton_self _) hname
    · intro p hobject hname h
      rw [propertyIn, if_neg hname] at h
      · contradiction
      · apply hobject
    · intro h
      contradiction
    · intro p ps q hq ih h
      apply (ih (by rw [hq]; rfl)).mono
      intro p' hp'
      obtain rfl := List.mem_singleton.mp hp'
      apply List.mem_cons_self
    · intro p ps hnone ihp ih h
      simp only [propertyNamed, hnone] at h
      apply (ih h).mono
      intro p' hp'
      apply List.mem_cons_of_mem _ hp'
  · intro h
    induction h with
    | here h hname => apply propertyNamed_isSome_of_mem h (propertyIn_of_name hname)
    | @inside name qs _ h hin ih =>
        apply propertyNamed_isSome_of_mem h
        rw [propertyIn]
        split
        · rfl
        · apply ih

end AMFObject
