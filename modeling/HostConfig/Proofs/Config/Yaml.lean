import HostConfig.Export
import HostConfig.Proofs.Yaml.Block

/-!
# YAML texts tell configurations apart

The fields of each record are told apart one after the other: a string by its scalar, a list by its
items, and a flag that is not defined by the key of the next field. So no text is written for two
configurations.
-/

namespace HostConfig

open HostConfig.Text HostConfig.Yaml

variable {indent : Nat}

/-- A dotfile is told by its fields. -/
theorem ConfigMapping.areFields (hmargin : indent + 2 < margin) :
    AreFields indent (Outdents indent) (ConfigMapping.yamlFields indent) := by
  have hfields := (areFields_none.cons
    (isField_textField "destination" (by decide) hmargin)).cons
    (isField_textField "source" (by decide) hmargin)
  refine hfields.comp (f := fun m : ConfigMapping => (m.source, m.destination, ())) ?_
  rintro ⟨⟩ ⟨⟩ ⟨⟩
  rfl

/-- A variable is told by its fields. -/
theorem EnvVar.areFields (hmargin : indent + 2 < margin) :
    AreFields indent (Outdents indent) (EnvVar.yamlFields indent) := by
  have hfields := (areFields_none.cons
    (isField_textField "value" (by decide) hmargin)).cons
    (isField_textField "key" (by decide) hmargin)
  refine hfields.comp (f := fun v : EnvVar => (v.key, v.value, ())) ?_
  rintro ⟨⟩ ⟨⟩ ⟨⟩
  rfl

/-- A service is told by its fields, which leave out the flags that are not defined. -/
theorem Service.areFields (hmargin : indent + 2 < margin) :
    AreFields indent (Outdents indent) (Service.yamlFields indent) := by
  have hnone : AreFields indent (Outdents indent) fun _ : Unit => [] := areFields_none
  have hmask := hnone.cons_definedFlag "mask" (by decide) fun _ t ht =>
    not_prefix_fieldLines ht (by simp)
  have hreload := hmask.cons_definedFlag "reload" (by decide) fun a t ht =>
    not_prefix_fieldLines ht (by
      obtain ⟨_ | _, _⟩ := a <;> simp [definedFlag, flagField])
  have hrestart := hreload.cons_definedFlag "restart" (by decide) fun a t ht =>
    not_prefix_fieldLines ht (by
      obtain ⟨_ | _, _ | _, _⟩ := a <;> simp [definedFlag, flagField])
  have hfields := (((hrestart.cons (isField_flagField "start" (by decide))).cons
    (isField_flagField "enable" (by decide))).cons
    (isField_textField "scope" (by decide) hmargin)).cons
    (isField_textField "name" (by decide) hmargin)
  have hservice := hfields.comp
    (f := fun s : Service =>
      (s.name, s.scope, s.enable, s.start, s.restart, s.reload, s.mask, ())) (by
        rintro ⟨⟩ ⟨⟩ ⟨⟩
        rfl)
  convert hservice using 1
  funext s
  simp [yamlFields]

/-- An entry is told by its fields. -/
theorem Entry.areFields (hmargin : indent + 4 < margin) :
    AreFields indent (Outdents indent) (Entry.yamlFields indent) := by
  have htext : indent + 2 < margin := Nat.lt_of_le_of_lt (by omega) hmargin
  have hconfigs := isField_mappings "configs" (by decide) (ConfigMapping.areFields hmargin)
    fun _ => List.cons_ne_nil _ _
  have hservices := isField_mappings "services" (by decide) (Service.areFields hmargin)
    fun _ => List.cons_ne_nil _ _
  have henvs := isField_mappings "envs" (by decide) (EnvVar.areFields hmargin)
    fun _ => List.cons_ne_nil _ _
  have hprovenance := ((areFields_none.cons
    (isField_optionalField "group_name" (by decide) htext)).cons
    (isField_textField "source_kind" (by decide) htext)).cons
    (isField_textField "source_file" (by decide) htext)
  have hdeclared := (((hprovenance.cons henvs).cons hservices).cons
    (isField_texts "setups" (by decide) htext)).cons hconfigs
  have hfields := hdeclared.cons (isField_textField "package" (by decide) htext)
  refine hfields.comp (f := fun e : Entry => (e.package, e.configs, e.setups, e.services, e.envs,
    e.provenance.file, e.provenance.kind.label, e.provenance.group, ())) ?_
  rintro ⟨_, ⟨_, ⟨_⟩, _⟩⟩ ⟨_, ⟨_, ⟨_⟩, _⟩⟩ ⟨⟩
  rfl

/-- A configuration is told by its fields, in front of the line feed at the end. -/
theorem Config.toYaml_injective : Function.Injective Config.toYaml := by
  have hend : EndsField 0 ['\n'] :=
    ⟨⟨0, [], rfl, by decide, by decide⟩, by decide⟩
  have hentries := isField_mappings "entries" (by decide)
    (Entry.areFields (by decide : 2 + 4 < margin)) fun _ => List.cons_ne_nil _ _
  have henvs := isField_mappings "global_envs" (by decide)
    (EnvVar.areFields (by decide : 2 + 2 < margin)) fun _ => List.cons_ne_nil _ _
  have hnone : AreFields 0 (EndsField 0) fun _ : Unit => [] := areFields_nil fun _ ht => ht
  have hfields := ((hnone.cons (isField_texts "global_scripts" (by decide) (by decide))).cons
    henvs).cons hentries
  intro c d h
  obtain ⟨hsame, -⟩ := hfields.mapping (fun _ => List.cons_ne_nil _ _)
    (c.entries, c.envs, c.scripts, ()) (d.entries, d.envs, d.scripts, ()) _ _ hend hend h
  obtain ⟨_, _, _⟩ := c
  obtain ⟨_, _, _⟩ := d
  cases hsame
  rfl

/-- Two configurations have the same YAML text only if they are the same in every field. -/
theorem Config.dump_yaml_eq_iff (c d : Config) : c.dump "yaml" = d.dump "yaml" ↔ c = d := by
  have hformat : Format.ofName "yaml" = .ok .yaml := by decide
  have hdump : ∀ c : Config, c.dump "yaml" = .ok (String.ofList c.toYaml) := by
    intro c
    rw [dump, hformat]
    rfl
  rw [hdump, hdump]
  constructor
  · intro h
    exact toYaml_injective (String.ofList_injective (Except.ok.inj h))
  · rintro rfl
    rfl

end HostConfig
