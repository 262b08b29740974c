import SpillStorage.Blueprint
import SpillStorage.RecordLog
import SpillStorage.StagingCache

/-!
A session keeps tenants by name: spaces, and the record logs and staging caches that took a space
over. Tenants share the session's disk and, unless they brought one of their own, its registry. A
tenant that leaves gives back all that its space holds.
-/

namespace SpillStorage

inductive Tenant where
  | space (s : Space)
  | log (l : RecordLog)
  | cache (c : StagingCache)

/-- The space inside a tenant. -/
def Tenant.inner : Tenant → Space
  | .space s => s
  | .log l => l.space
  | .cache c => c.space

/-- A tenant, and the registry that it brought, if it does not share the session's. -/
structure Lodging where
  tenant : Tenant
  own : Option Registry

structure Session where
  /-- The shared registry, and the disk of all tenants. -/
  host : Host
  lodgings : List (String × Lodging)

namespace Session

/-- A session without tenants. -/
def ofHost (host : Host) : Session := ⟨host, []⟩

def lodging? (s : Session) (name : String) : Option Lodging := s.lodgings.lookup name

/-- The host as a lodging sees it, with the registry that counts for it. -/
def hostOf (s : Session) (l : Lodging) : Host :=
  match l.own with
  | some registry => { s.host with registry := registry }
  | none => s.host

/-- The registry of the tenant with a name, the session's if there is no such tenant. -/
def registryOf (s : Session) (name : String) : Registry :=
  match s.lodging? name with
  | some l => (s.hostOf l).registry
  | none => s.host.registry

/-- The session over the host that a lodging leaves. -/
def leaving (s : Session) (l : Lodging) (h : Host) : Session :=
  match l.own with
  | some _ => { s with host := { h with registry := s.host.registry } }
  | none => { s with host := h }

def remove (s : Session) (name : String) : Session :=
  { s with lodgings := s.lodgings.filter fun entry => entry.1 != name }

def put (s : Session) (name : String) (l : Lodging) : Session :=
  { s with lodgings := (name, l) :: (s.remove name).lodgings }

/-- The session after an operation of a lodging that left another tenant and another host. -/
def settle (s : Session) (name : String) (l : Lodging) (tenant : Tenant) (h : Host) : Session :=
  (s.leaving l h).put name ⟨tenant, l.own.map fun _ => h.registry⟩

/-- Drops the tenant with a name, if there is one. -/
def evict (s : Session) (name : String) : Session :=
  match s.lodging? name with
  | some l => (s.leaving l (l.tenant.inner.drop (s.hostOf l))).remove name
  | none => s

/-- Opens a space under a name, on the session's registry or on one of its own. A tenant that had
the name is dropped once the new one is there. -/
def openSpace (s : Session) (name : String) (shared : Bool) (b : Blueprint) :
    Outcome Session Unit :=
  match b.build (if shared then some s.host.registry else none) s.host.disk.temporaries with
  | .error f => .fail s f
  | .ok (space, registry) =>
    if shared then
      let s := { s with host := { s.host with registry := registry } }
      .ok ((s.evict name).put name ⟨.space space, none⟩) ()
    else .ok ((s.evict name).put name ⟨.space space, some registry⟩) ()

/-- Drops every tenant. -/
def close (s : Session) : Session :=
  s.lodgings.foldl (fun s entry => s.evict entry.1) s

/-! ## What tenants do -/

/-- Runs an operation on the space with a name. -/
def onSpace (s : Session) (name : String) (act : Space → Host → Outcome (Space × Host) α) :
    Option (Outcome Session α) :=
  match s.lodging? name with
  | some ⟨.space space, own⟩ =>
    let l : Lodging := ⟨.space space, own⟩
    some ((act space (s.hostOf l)).onState fun (space, h) => s.settle name l (.space space) h)
  | _ => none

/-- Runs an operation on the record log with a name. -/
def onLog (s : Session) (name : String)
    (act : RecordLog → Host → Outcome (RecordLog × Host) α) : Option (Outcome Session α) :=
  match s.lodging? name with
  | some ⟨.log log, own⟩ =>
    let l : Lodging := ⟨.log log, own⟩
    some ((act log (s.hostOf l)).onState fun (log, h) => s.settle name l (.log log) h)
  | _ => none

/-- Runs an operation on the staging cache with a name. -/
def onCache (s : Session) (name : String)
    (act : StagingCache → Host → Outcome (StagingCache × Host) α) :
    Option (Outcome Session α) :=
  match s.lodging? name with
  | some ⟨.cache cache, own⟩ =>
    let l : Lodging := ⟨.cache cache, own⟩
    some ((act cache (s.hostOf l)).onState fun (cache, h) => s.settle name l (.cache cache) h)
  | _ => none

/-- Lets a record log or a staging cache take over the space inside the tenant with a name. If it
refuses, the space is gone. -/
def convert (s : Session) (name : String) (adopt : Space → Host → Outcome Host Tenant) :
    Option (Outcome Session Unit) :=
  (s.lodging? name).map fun l =>
    let adopted := adopt l.tenant.inner (s.hostOf l)
    match adopted.answer with
    | .ok tenant => .ok (s.settle name l tenant adopted.state) ()
    | .error f => .fail ((s.leaving l adopted.state).remove name) f

/-- The space inside the tenant with a name becomes a record log. -/
def keepRecords (s : Session) (name : String) (recordLength : Nat) :
    Option (Outcome Session Unit) :=
  s.convert name fun space h => (RecordLog.adopt space h recordLength).map .log

/-- The space inside the tenant with a name becomes a staging cache. -/
def stage (s : Session) (name : String) (alignment : Nat) : Option (Outcome Session Unit) :=
  s.convert name fun space h => (StagingCache.adopt space h alignment).map .cache

/-- The record log or staging cache with a name becomes a space again. -/
def unwrap? (s : Session) (name : String) : Option Session :=
  (s.lodging? name).map fun l => s.put name ⟨.space l.tenant.inner, l.own⟩

/-- Ends the tenant with a name and hands back the caller's buffer. -/
def endWithInitial? (s : Session) (name : String) : Option (Option Buffer × Session) :=
  (s.lodging? name).map fun l =>
    let ended := l.tenant.inner.intoInitial (s.hostOf l)
    (ended.1, (s.leaving l ended.2).remove name)

end Session

end SpillStorage
