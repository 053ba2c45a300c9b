import Voker.Asset.Approval

/-!
# Loads from inside a loader

`NestedLoadBuilder::load`, `load_erased` and `load_untyped` enter the handle they get among the
dependencies of the asset being loaded.  **They take it for granted that the handle has an index,
but the server answers a path it refuses with the default handle, which has none.**
-/

namespace Voker.Asset

open List Function

abbrev TypeId := ℕ

structure TypedAssetIndex where
  index : ℕ
  typeId : TypeId
  deriving DecidableEq

/-- `ErasedHandle`; `uuid` is the default handle of a type. -/
inductive Handle where
  | strong (index : TypedAssetIndex)
  | uuid (typeId : TypeId)

/-- What a load names: a path, its source, and a label. -/
structure Address where
  source : Option String := none
  path : AssetPath
  label : Option String := none
  deriving DecidableEq

/-- `AssetServer` and its `AssetInfos`. -/
structure AssetServer where
  unapprovedPathMode : UnapprovedPathMode
  /-- The next index of each registered type. -/
  handleProviders : TypeId → Option ℕ
  /-- The index of an asset, and whether a handle to it is still held. -/
  pathToIndex : Address × TypeId → Option (ℕ × Bool)

namespace AssetServer

variable (server : AssetServer)

/-- `get_or_create_erased_handle`; `none` is the panic for a type that is not registered. -/
def getOrCreateErasedHandle (address : Address) (typeId : TypeId) :
    Option (Handle × AssetServer) :=
  let hold (index : ℕ) := update server.pathToIndex (address, typeId) (some (index, true))
  match server.pathToIndex (address, typeId) with
  | some (index, true) => some (.strong ⟨index, typeId⟩, server)
  | some (index, false) => (server.handleProviders typeId).map fun _ =>
    (.strong ⟨index, typeId⟩, { server with pathToIndex := hold index })
  | none => (server.handleProviders typeId).map fun next =>
    (.strong ⟨next, typeId⟩, { server with
      handleProviders := update server.handleProviders typeId (some (next + 1))
      pathToIndex := hold next })

/-- The path is unapproved, and so refused. -/
def refuses (path : AssetPath) (overrideUnapproved : Bool) : Bool :=
  isUnapproved path && match server.unapprovedPathMode, overrideUnapproved with
    | .allow, _ | .deny, true => false
    | .deny, false | .forbid, _ => true

/-- `load_erased_asset_impl` and `load_untyped_asset_impl`; these differ in the address they enter
the asset under. -/
def loadAssetImpl (address entered : Address) (typeId : TypeId) (overrideUnapproved : Bool) :
    Option (Handle × AssetServer) :=
  if address.path = [] ∨ server.refuses address.path overrideUnapproved then
    some (.uuid typeId, server)
  else server.getOrCreateErasedHandle entered typeId

/-- A handle for the asset can be had. -/
def Serves (address : Address) (typeId : TypeId) : Prop :=
  (server.handleProviders typeId).isSome ∨
    ∃ index, server.pathToIndex (address, typeId) = some (index, true)

theorem getOrCreateErasedHandle_spec (a : Address) (ti : TypeId) :
    server.Serves a ti ∧ (∃ i post,
      server.getOrCreateErasedHandle a ti = some (.strong i, post)) ∨
    ¬ server.Serves a ti ∧ server.getOrCreateErasedHandle a ti = none := by
  unfold getOrCreateErasedHandle Serves
  rcases server.pathToIndex (a, ti) with _ | ⟨i, _ | _⟩ <;>
    cases server.handleProviders ti <;> simp

end AssetServer

/-- `LoadContext`. -/
structure LoadContext where
  shouldLoadDependencies : Bool
  dependencies : List TypedAssetIndex

/-- `LoadedUntypedAsset` as a type. -/
def loadedUntypedAsset : TypeId := 0

/-- The methods; `load` has its type from the caller's type argument. -/
inductive NestedLoad where
  | load (typeId : TypeId)
  | loadErased (typeId : TypeId)
  | loadUntyped

namespace NestedLoad

def typeId : NestedLoad → TypeId
  | load typeId | loadErased typeId => typeId
  | loadUntyped => loadedUntypedAsset

/-- An untyped asset that is to be loaded is entered under a source of its own. -/
def entered (address : Address) (loads : Bool) : NestedLoad → Address
  | loadUntyped => if loads then { address with source := address.source.getD "" ++ "--untyped" }
    else address
  | _ => address

/-- One of the methods, on a server; `none` is a panic. -/
def perform (call : NestedLoad) (address : Address) (overrideUnapproved : Bool)
    (context : LoadContext) (server : AssetServer) :
    Option (Handle × LoadContext × AssetServer) :=
  let entered := call.entered address context.shouldLoadDependencies
  if address.path = [] then some (.uuid call.typeId, context, server)
  else
    (if context.shouldLoadDependencies then
      server.loadAssetImpl address entered call.typeId overrideUnapproved
    else server.getOrCreateErasedHandle entered call.typeId).bind fun
    | (.strong index, server) => some (.strong index,
      { context with dependencies := context.dependencies.insert index }, server)
    -- `try_into().unwrap()`
    | (.uuid _, _) => none

/-- **A call returns, and enters exactly the handle it returns, unless the server refuses the path
or the type is not registered.** -/
theorem perform_exact_iff (call : NestedLoad) (address : Address) (overrideUnapproved : Bool)
    (context : LoadContext) (server : AssetServer) :
    (∃ handle context' server', call.perform address overrideUnapproved context server =
        some (handle, context', server') ∧ ∀ index, index ∈ context'.dependencies ↔
          index ∈ context.dependencies ∨ handle = .strong index) ↔
      address.path = [] ∨ server.Serves (call.entered address context.shouldLoadDependencies)
        call.typeId ∧
      ¬ (context.shouldLoadDependencies ∧ server.refuses address.path overrideUnapproved) := by
  obtain ⟨l, d⟩ := context
  have hen : ∀ index o : TypedAssetIndex, o ∈ d.insert index ↔
      o ∈ d ∨ index = o := by
    intro index o
    rw [mem_insert_iff, or_comm, eq_comm]
  unfold perform AssetServer.loadAssetImpl
  by_cases he : address.path = []
  · simp [he]
  rcases server.getOrCreateErasedHandle_spec (call.entered address l) call.typeId with
    ⟨hs, index, a, hg⟩ | ⟨hn, hf⟩
  · cases l <;> cases server.refuses address.path overrideUnapproved <;>
      simp [he, hs, hg, hen]
  · cases l <;> cases server.refuses address.path overrideUnapproved <;>
      simp [he, hn, hf]

/-- A loader names a file above its source, which the server forbids. -/
theorem perform_refused : (load 1).perform ⟨none, [.parentDir, .normal "a"], none⟩ false
    ⟨true, []⟩ ⟨.forbid, fun _ => some 0, fun _ => none⟩ = none := by
  decide

end NestedLoad

end Voker.Asset
