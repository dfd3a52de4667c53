import Sluice.Relational.Query
import Sluice.Storage.Schema

/-! The tenants and how requests and workers look them up. -/

namespace Sluice

open Relational

/-- A row of `tenants`. -/
structure Tenant where
  id : UUID
  name : String
  apiKey : String
  rateLimit : Int
  weight : Int
  status : String
  deriving DecidableEq

/-- The unique index on `api_key`. -/
def Tenant.keyed (t : Tenant) : Option String := some t.apiKey

/-- The `tenants` table. -/
abbrev Tenants := Table Tenant.id Tenant.keyed

/-- The tenant that the migrations leave behind. -/
def devTenant : Tenant := ⟨1, "dev", "dev-token", 1000, 100, "active"⟩

/-- Whether a tenant may use the service. -/
def Tenant.active (t : Tenant) : Bool := t.status == "active"

/-- `GetTenantByAPIKey`. -/
def getTenantByAPIKey (apiKey : String) (tenants : Tenants) : Except StorageError Tenant :=
  match tenants.select? fun t => t.apiKey == apiKey && t.active with
  | none => .error .notFound
  | some t => .ok t

/-- `GetTenants`, which asks for no order and no limit. -/
def getTenants : Query Tenant where
  holds t := t.active
  before _ _ := true
  offset := 0
  limit := none

end Sluice
