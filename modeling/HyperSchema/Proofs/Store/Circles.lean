import HyperSchema.Proofs.Store.Trail

/-!
# When references go in circles

References go in circles when following them never ends. The report of a circle is made earlier: as
soon as a reference comes up a second time. The two agree as long as a reference is met only with
the same rest of the way. A schema that refers to itself, addressed through the reference at two
depths, is met with less of the way left each time, and is reported although the way ends.
-/

namespace HyperSchema

namespace Store

variable {s : Store} {uri found : String} {trail : List Waypoint} {x : Json}

/-- Where following references ends at a schema, that schema is found, unless one reference is met
with different rests of the way; then a circle is reported. -/
theorem resolve?_of_leads (h : s.Leads (SchemaUri.normalize uri) trail found x) :
    ((∀ a ∈ trail, ∀ b ∈ trail, a.target = b.target → a.rest = b.rest) →
        s.resolve? uri = (.ok (some ⟨found, x⟩), s))
      ∧ ((∃ a ∈ trail, ∃ b ∈ trail, a.target = b.target ∧ a.rest ≠ b.rest) →
        ∃ chain, s.resolve? uri = (.error ⟨chain⟩, s)) := by
  have hcases := h.resolution_cases
  obtain ⟨v, tokens, -, harrives⟩ := h
  have hrepeats := harrives.repeats_iff
  rw [resolve?]
  rcases hcases with ⟨hnodup, hfound⟩ | ⟨hrepeat, chain, hcircle⟩
  · rw [hfound]
    exact ⟨fun _ => rfl, fun hmet => absurd hnodup (hrepeats.2 hmet)⟩
  · rw [hcircle]
    obtain ⟨a, ha, b, hb, htarget, hrest⟩ := hrepeats.1 hrepeat
    exact ⟨fun honce => absurd (honce a ha b hb htarget) hrest, fun _ => ⟨chain, rfl⟩⟩

def listing : Store :=
  empty.add "list" (.object
    [("next", .object [("$ref", .string "#")]), ("item", .object [("type", .string "string")])])

/-- The schema of the items, at whatever depth of the list. -/
def listed : Json := .object [("type", .string "string")]

theorem listing_leads_once :
    listing.Leads "list#/next/item" [⟨"list", ["item"]⟩] "list#/next/item" listed :=
  ⟨_, _, rfl, .onward rfl rfl rfl (.here rfl rfl)⟩

theorem listing_leads_twice :
    listing.Leads "list#/next/next/item" [⟨"list", ["next", "item"]⟩, ⟨"list", ["item"]⟩]
      "list#/next/next/item" listed :=
  ⟨_, _, rfl, .onward rfl rfl rfl (.onward rfl rfl rfl (.here rfl rfl))⟩

theorem resolve?_of_leads_listing :
    listing.Leads (SchemaUri.normalize "list#/next/item") [⟨"list", ["item"]⟩] "list#/next/item"
        listed
      ∧ listing.resolve? "list#/next/item"
        = (.ok (some ⟨"list#/next/item", listed⟩), listing) := by
  have hleads : listing.Leads (SchemaUri.normalize "list#/next/item") [⟨"list", ["item"]⟩]
      "list#/next/item" listed := listing_leads_once
  refine ⟨hleads, (resolve?_of_leads hleads).1 fun a ha b hb _ => ?_⟩
  rw [List.mem_singleton.1 ha, List.mem_singleton.1 hb]

/-- Two parts down the list, the way ends at a schema, and a circle is reported. -/
theorem listing_reports_circle :
    listing.Leads (SchemaUri.normalize "list#/next/next/item")
        [⟨"list", ["next", "item"]⟩, ⟨"list", ["item"]⟩] "list#/next/next/item" listed
      ∧ (listing.resolve? "list#/next/next/item").1 = .error ⟨["list", "list"]⟩ :=
  ⟨listing_leads_twice, rfl⟩

end Store

end HyperSchema
