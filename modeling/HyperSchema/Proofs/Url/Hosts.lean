import HyperSchema.Proofs.Text.Cut
import HyperSchema.Url.Path

/-!
# No hash signs in hosts

A hash sign separates the fragment of a URL from the rest, so no other part may hold one. Escaping
writes hexadecimal digits only, numbers are written in digits, and the domains that are accepted are
free of delimiters before and after their labels are encoded.
-/

namespace HyperSchema

theorem eq_of_ofNat_eq_hash {n : Nat} (h : Char.ofNat n = '#') : n = 35 := by
  by_cases hvalid : n.isValidChar
  · have hcode := congrArg Char.toNat h
    rw [Char.ofNat, dif_pos hvalid] at hcode
    exact hcode
  · rw [Char.ofNat, dif_neg hvalid] at h
    exact absurd h (by decide)

namespace Text

variable {sep : Char} {cs : List Char}

theorem upperHex_ne_hash (n : Nat) : upperHex n ≠ '#' := by
  intro h
  rw [upperHex] at h
  split at h
  · have hcode := eq_of_ofNat_eq_hash h
    omega
  · have hcode := eq_of_ofNat_eq_hash h
    omega

theorem hash_not_mem_escapeChar (c : Char) : '#' ∉ escapeChar c := by
  intro h
  obtain ⟨b, -, hb⟩ := List.mem_flatMap.1 h
  simp only [escapeByte, List.mem_cons, List.not_mem_nil, or_false] at hb
  rcases hb with hb | hb | hb
  · exact absurd hb (by decide)
  · exact upperHex_ne_hash _ hb.symm
  · exact upperHex_ne_hash _ hb.symm

end Text

namespace Url

variable {cs : List Char}

/-! ### Escapes and digits -/

theorem hash_not_mem_encode {escapes : Char → Bool} (h : escapes '#' = true ∨ '#' ∉ cs) :
    '#' ∉ encode escapes cs := by
  intro hmem
  obtain ⟨c, hc, hhash⟩ := List.mem_flatMap.1 hmem
  split at hhash
  · exact Text.hash_not_mem_escapeChar c hhash
  · next hplain =>
    obtain rfl := List.mem_singleton.1 hhash
    rcases h with hescapes | hnot
    · exact hplain hescapes
    · exact hnot hc

theorem hash_not_mem_toDigits {base : Nat} (hbase : 1 < base) (n : Nat) :
    '#' ∉ Nat.toDigits base n := by
  induction n using Nat.strongRecOn with
  | _ n ih =>
    rcases Nat.lt_or_ge n base with hlt | hge
    · rw [Nat.toDigits_of_lt_base hlt, List.mem_singleton]
      exact (Nat.digitChar_ne '#' (by decide)).symm
    · rw [Nat.toDigits_of_base_le hbase hge, List.mem_append, List.mem_singleton, not_or]
      refine ⟨ih _ (Nat.div_lt_self (by omega) hbase), ?_⟩
      exact (Nat.digitChar_ne '#' (by decide)).symm

/-! ### Addresses -/

theorem hash_not_mem_dotted (address : Nat) : '#' ∉ dotted address := by
  refine Text.not_mem_joinWith (by decide) fun text htext => ?_
  obtain ⟨shift, -, rfl⟩ := List.mem_map.1 htext
  exact hash_not_mem_toDigits (by decide) _

theorem hash_not_mem_ipv6Text (pieces : List Nat) : '#' ∉ ipv6Text pieces := by
  have hpieces : ∀ some : List Nat, '#' ∉ Text.joinWith [':'] (some.map hexDigits) := by
    intro some
    refine Text.not_mem_joinWith (by decide) fun text htext => ?_
    obtain ⟨n, -, rfl⟩ := List.mem_map.1 htext
    exact hash_not_mem_toDigits (by decide) n
  rw [ipv6Text]
  split
  · exact hpieces pieces
  · next start length _ =>
    have hfront := hpieces (pieces.take start)
    have hback := hpieces (pieces.drop (start + length))
    simp only [List.mem_append, not_or]
    exact ⟨⟨hfront, by decide⟩, hback⟩

/-! ### Domains -/

theorem digitChar_ne_hash (d : Nat) : Punycode.digitChar d ≠ '#' := by
  intro h
  rw [Punycode.digitChar] at h
  split at h
  · have hcode := eq_of_ofNat_eq_hash h
    omega
  · have hcode := eq_of_ofNat_eq_hash h
    omega

theorem hash_not_mem_digits (bias position q : Nat) : '#' ∉ Punycode.digits bias position q := by
  fun_induction Punycode.digits bias position q with
  | case1 position q t hlast => simpa using (digitChar_ne_hash q).symm
  | case2 position q t hmore ih => simp [ih, (digitChar_ne_hash _).symm]

theorem hash_not_mem_see {basic current : Nat} {e : Punycode.Encoder} {c : Char}
    (h : '#' ∉ e.output) : '#' ∉ (e.see basic current c).output := by
  rw [Punycode.Encoder.see]
  split
  · exact h
  · split
    · simp [h, hash_not_mem_digits]
    · exact h

theorem hash_not_mem_encodeFrom {label : List Char} {basic current : Nat} {points : List Nat}
    {e : Punycode.Encoder} (h : '#' ∉ e.output) :
    '#' ∉ (Punycode.encodeFrom label basic points current e).output := by
  have hlabel : ∀ (cs : List Char) (next : Nat) (e : Punycode.Encoder), '#' ∉ e.output →
      '#' ∉ (cs.foldl (Punycode.Encoder.see basic next) e).output := by
    intro cs next
    induction cs with
    | nil => exact fun _ h => h
    | cons c rest ih => exact fun e h => ih _ (hash_not_mem_see h)
  induction points generalizing current e with
  | nil => exact h
  | cons next rest ih => exact ih (hlabel label next _ h)

theorem hash_not_mem_punycode {label : List Char} (h : '#' ∉ label) :
    '#' ∉ Punycode.encode label := by
  have hbasic : '#' ∉ label.filter (fun c => c.toNat < 128) :=
    fun hmem => h (List.mem_of_mem_filter hmem)
  have houtput : '#' ∉ (Punycode.encodeFrom label (label.filter (fun c => c.toNat < 128)).length
      (Punycode.foreignPoints label) 128
      ⟨[], 0, 72, (label.filter (fun c => c.toNat < 128)).length⟩).output :=
    hash_not_mem_encodeFrom List.not_mem_nil
  rw [Punycode.encode, List.mem_append, List.mem_append, not_or, not_or]
  refine ⟨⟨hbasic, ?_⟩, houtput⟩
  split
  · exact List.not_mem_nil
  · decide

theorem hash_not_mem_asciiLabel {label text : List Char} (h : asciiLabel? label = some text)
    (hlabel : '#' ∉ label) : '#' ∉ text := by
  unfold asciiLabel? at h
  split at h
  · split at h
    · split at h
      · cases h
      · rwa [← Option.some.inj h]
    · cases h
  · split at h
    · rwa [← Option.some.inj h]
    · rw [← Option.some.inj h, List.mem_append, not_or]
      exact ⟨by decide, hash_not_mem_punycode hlabel⟩

theorem exists_of_mem_mapM {α β : Type} {f : α → Option β} {l : List α} {l' : List β} {b : β}
    (h : l.mapM f = some l') (hb : b ∈ l') : ∃ a ∈ l, f a = some b := by
  induction l generalizing l' with
  | nil =>
      rw [List.mapM_nil] at h
      obtain rfl := Option.some.inj h
      cases hb
  | cons a rest ih =>
      rw [List.mapM_cons] at h
      obtain ⟨first, hfirst, h⟩ := Option.bind_eq_some_iff.1 h
      obtain ⟨more, hmore, h⟩ := Option.bind_eq_some_iff.1 h
      obtain rfl := Option.some.inj h
      rcases List.mem_cons.1 hb with rfl | hb
      · exact ⟨a, List.mem_cons_self, hfirst⟩
      · obtain ⟨a', ha', heq⟩ := ih hmore hb
        exact ⟨a', List.mem_cons_of_mem _ ha', heq⟩

theorem hash_not_mem_domain {name : List Char} (h : domain? cs = some name) : '#' ∉ name := by
  rw [domain?] at h
  split at h
  · cases h
  · next hallowed =>
    obtain ⟨labels, hlabels, h⟩ := Option.bind_eq_some_iff.1 h
    obtain rfl := Option.some.inj h
    refine Text.not_mem_joinWith (by decide) fun text htext => ?_
    obtain ⟨label, hlabel, htext⟩ := exists_of_mem_mapM hlabels htext
    refine hash_not_mem_asciiLabel htext fun hhash => hallowed ?_
    rw [List.any_eq_true]
    exact ⟨'#', Text.mem_of_mem_pieces hlabel hhash, by decide⟩

/-! ### Hosts -/

theorem hash_not_mem_specialHost {host : List Char} (h : specialHost? cs = some host) :
    '#' ∉ host := by
  unfold specialHost? at h
  split at h
  · obtain ⟨inside, -, h⟩ := Option.bind_eq_some_iff.1 h
    obtain ⟨pieces, -, h⟩ := Option.bind_eq_some_iff.1 h
    obtain rfl := Option.some.inj h
    simp [hash_not_mem_ipv6Text]
  · obtain ⟨name, hname, h⟩ := Option.bind_eq_some_iff.1 h
    split at h
    · cases h
    · split at h
      · obtain ⟨address, -, rfl⟩ := Option.map_eq_some_iff.1 h
        exact hash_not_mem_dotted address
      · rw [← Option.some.inj h]
        exact hash_not_mem_domain hname

theorem hash_not_mem_opaqueHost {host : List Char} (h : opaqueHost? cs = some host) :
    '#' ∉ host := by
  unfold opaqueHost? at h
  split at h
  · obtain ⟨inside, -, h⟩ := Option.bind_eq_some_iff.1 h
    obtain ⟨pieces, -, h⟩ := Option.bind_eq_some_iff.1 h
    obtain rfl := Option.some.inj h
    simp [hash_not_mem_ipv6Text]
  · split at h
    · cases h
    · next hallowed =>
      obtain rfl := Option.some.inj h
      refine hash_not_mem_encode (.inr fun hhash => hallowed ?_)
      rw [List.any_eq_true]
      exact ⟨'#', hhash, by decide⟩

end Url

end HyperSchema
