/-!
# About the program

Its version, and the names that it offers to those who build on it.
-/

namespace TreeFeatures.About

/-- The version. -/
def version : String := "0.1.0"

/-- The offered names, in the order of their code points. -/
def offered : List String :=
  ["AvailabilityRegistry", "BuiltinGrammarIndex", "CommandError", "ConfigResolver",
    "ConfigurationError", "DocumentFeatureState", "EnablementEngine", "FeatureApplier",
    "FeatureConfig", "HostProtocol", "InstallerError", "InstallerGateway", "InstallerProtocol",
    "LanguageAvailability", "LifecycleController", "OptionOverride", "TSEnableConfig",
    "TSEnableContext", "TSEnableError", "__version__", "get_controller", "load_config",
    "reset_controller", "resolve_config"]

end TreeFeatures.About
