import CoroMultiplex.Foundations.Recency
import CoroMultiplex.Foundations.UnorderedMap
import Mathlib.Data.List.Sigma

/-! The least recently used cache: a list of values and a map of iterators into it.

A node keeps its address while it is spliced, and no address is given twice, so
an iterator of an erased node finds nothing.
-/

set_option autoImplicit false

namespace CoroMultiplex.Storage

open Foundations

/-- What the cache asks of its keys and values. Keys of one class are equal
under `operator==`, the only thing an unordered map sees of them. -/
structure Traits (Key Class Value : Type) where
  classOf : Key → Class
  path : Value → Key

/-- How a call ends that does not return. -/
inductive Halt (Thrown : Type) where
  | thrown (exception : Thrown)
  -- an iterator without a node, or the last element of an empty list
  | undefined

structure Node (Value : Type) where
  address : Nat
  value : Value

structure LruCache (Class Value : Type) where
  capacity : Nat
  cacheList : List (Node Value) := []
  map : UnorderedMap Class Nat := ∅
  nextNode : Nat := 0

namespace LruCache

variable {Key Class Value Effect Thrown : Type} [DecidableEq Class] (T : Traits Key Class Value)

def node? (self : LruCache Class Value) (iterator : Nat) : Option (Node Value) :=
  self.cacheList.find? (·.address = iterator)

/-- `*map[key]` -/
def at? (self : LruCache Class Value) (key : Key) : Option Value :=
  ((self.map.lookup (T.classOf key)).bind self.node?).map Node.value

/-- Dropping the last node, whose value tells the key to erase. -/
def evict (self : LruCache Class Value) : Option (LruCache Class Value) :=
  match self.cacheList.getLast? with
  | none => none
  | some endNode => some { self with
      map := self.map.erase (T.classOf (T.path endNode.value))
      cacheList := self.cacheList.dropLast }

def pushFront (self : LruCache Class Value) (key : Key) (newNode : Value) :
    LruCache Class Value :=
  { self with
    cacheList := ⟨self.nextNode, newNode⟩ :: self.cacheList
    map := self.map.insert (T.classOf key) self.nextNode
    nextNode := self.nextNode + 1 }

def put (self : LruCache Class Value) (build : Key → Built Value Effect Thrown) (key : Key) :
    List Effect × LruCache Class Value × Except (Halt Thrown) Bool :=
  if T.classOf key ∈ self.map then ([], self, .ok false)
  else
    match build key with
    | (effects, .error thrown) => (effects, self, .error (.thrown thrown))
    | (effects, .ok none) => (effects, self, .ok false)
    | (effects, .ok (some newNode)) =>
      match if self.map.size = self.capacity then self.evict T else some self with
      | none => (effects, self, .error .undefined)
      | some roomy => (effects, roomy.pushFront T key newNode, .ok true)

/-- `cacheList.splice(cacheList.begin(), cacheList, map[key])`, unless the node
is in front already. -/
def moveToFront (self : LruCache Class Value) (key : Key) : Option (LruCache Class Value) :=
  match self.map.lookup (T.classOf key) with
  | none => none
  | some iterator =>
    if self.cacheList.head?.map Node.address = some iterator then some self
    else
      match self.node? iterator with
      | none => none
      | some node => some { self with
          cacheList := node :: self.cacheList.eraseP (·.address = iterator) }

def get (self : LruCache Class Value) (build : Key → Built Value Effect Thrown) (key : Key) :
    List Effect × LruCache Class Value × Except (Halt Thrown) (Option Value) :=
  if T.classOf key ∉ self.map then
    match self.put T build key with
    | (effects, cache, .error halt) => (effects, cache, .error halt)
    | (effects, cache, .ok false) => (effects, cache, .ok none)
    | (effects, cache, .ok true) =>
      match cache.at? T key with
      | none => (effects, cache, .error .undefined)
      | some value => (effects, cache, .ok (some value))
  else
    match self.moveToFront T key with
    | none => ([], self, .error .undefined)
    | some cache =>
      match cache.at? T key with
      | none => ([], cache, .error .undefined)
      | some value => ([], cache, .ok (some value))

def refresh (self : LruCache Class Value) : LruCache Class Value :=
  { self with cacheList := [], map := ∅ }

end LruCache

/-- A call on a cache. The builder belongs to the call: what it answers may
change from one call to the next. -/
inductive Call (Key Value Effect Thrown : Type) where
  | get (build : Key → Built Value Effect Thrown) (key : Key)
  | put (build : Key → Built Value Effect Thrown) (key : Key)
  | refresh

inductive Reply (Value : Type) where
  | value (found : Option Value)
  | stored (done : Bool)
  | refreshed

namespace LruCache

variable {Key Class Value Effect Thrown : Type} [DecidableEq Class] (T : Traits Key Class Value)

def perform (self : LruCache Class Value) : Call Key Value Effect Thrown →
    List Effect × LruCache Class Value × Except (Halt Thrown) (Reply Value)
  | .get build key =>
    let (effects, cache, answer) := self.get T build key
    (effects, cache, answer.map .value)
  | .put build key =>
    let (effects, cache, answer) := self.put T build key
    (effects, cache, answer.map .stored)
  | .refresh => ([], self.refresh, .ok .refreshed)

/-- The cache after a sequence of calls, and what each of them did and answered. -/
def run (self : LruCache Class Value) : List (Call Key Value Effect Thrown) →
    LruCache Class Value × List (List Effect × Except (Halt Thrown) (Reply Value))
  | [] => (self, [])
  | call :: calls =>
    let (effects, cache, answer) := self.perform T call
    let (final, answers) := run cache calls
    (final, (effects, answer) :: answers)

end LruCache

end CoroMultiplex.Storage
