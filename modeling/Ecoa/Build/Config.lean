import Ecoa.Build.Layout
import Ecoa.Json.Decoder

/-!
# Build configurations

A configuration says where the project lies; whatever it leaves out has a default.
-/

namespace Ecoa

structure BuildConfig where
  projectDir : String
  integrationDir : String

namespace BuildConfig

def defaultIntegrationDir : String := "5-Integration"

def default : BuildConfig := ⟨".", defaultIntegrationDir⟩

def inDirectory (projectDir : String) : BuildConfig := ⟨projectDir, defaultIntegrationDir⟩

def withIntegrationDir (c : BuildConfig) (dir : String) : BuildConfig :=
  { c with integrationDir := dir }

def layout (c : BuildConfig) : Layout := ⟨c.projectDir, c.integrationDir⟩

open Json Decoder Fields

def decoder : Decoder BuildConfig :=
  (BuildConfig.mk <$> defaulted "project_dir" text default.projectDir
    <*> defaulted "integration_dir" text default.integrationDir).decoder

end BuildConfig

end Ecoa
