set_option autoImplicit false

/-!
# The functions that PHP itself provides

The names of the functions of PHP and its common extensions, each once. A call to one of them leads
out of the project, so it is never looked up there.
-/

namespace PhpCalls.Builtin

/-- The names of the provided functions, in small letters. -/
def functionNames : List String :=
  ["addcslashes", "addslashes", "bin2hex", "chop", "chr", "chunk_split", "count_chars", "crc32",
   "explode", "html_entity_decode", "htmlentities", "htmlspecialchars", "htmlspecialchars_decode",
   "implode", "join", "lcfirst", "levenshtein", "ltrim", "md5", "md5_file", "metaphone", "nl2br",
   "number_format", "ord", "parse_str", "printf", "quotemeta", "rtrim", "sha1", "sha1_file",
   "similar_text", "soundex", "sprintf", "sscanf", "str_contains", "str_ends_with", "str_getcsv",
   "str_ireplace", "str_pad", "str_repeat", "str_replace", "str_rot13", "str_shuffle", "str_split",
   "str_starts_with", "str_word_count", "strcasecmp", "strchr", "strcmp", "strcoll", "strcspn",
   "strip_tags", "stripcslashes", "stripos", "stripslashes", "stristr", "strlen", "strnatcasecmp",
   "strnatcmp", "strncasecmp", "strncmp", "strpbrk", "strpos", "strrchr", "strrev", "strripos",
   "strrpos", "strspn", "strstr", "strtok", "strtolower", "strtoupper", "strtr", "substr",
   "substr_compare", "substr_count", "substr_replace", "trim", "ucfirst", "ucwords", "vprintf",
   "vsprintf", "wordwrap", "fprintf", "vfprintf", "nl_langinfo", "localeconv", "money_format",
   "setlocale", "quoted_printable_decode", "quoted_printable_encode", "convert_uuencode",
   "convert_uudecode", "hebrev", "uniqid", "lcg_value", "mb_strlen", "mb_substr", "mb_strtolower",
   "mb_strtoupper", "mb_strpos", "mb_strrpos", "mb_str_split", "mb_convert_encoding",
   "mb_detect_encoding", "mb_internal_encoding", "mb_substr_count", "mb_convert_case",
   "mb_strwidth", "mb_strimwidth", "mb_check_encoding", "iconv", "iconv_strlen", "iconv_substr",
   "iconv_strpos", "array", "array_change_key_case", "array_chunk", "array_column",
   "array_combine", "array_count_values", "array_diff", "array_diff_assoc", "array_diff_key",
   "array_diff_uassoc", "array_diff_ukey", "array_fill", "array_fill_keys", "array_filter",
   "array_flip", "array_intersect", "array_intersect_assoc", "array_intersect_key",
   "array_is_list", "array_key_exists", "array_key_first", "array_key_last", "array_keys",
   "array_map", "array_merge", "array_merge_recursive", "array_multisort", "array_pad",
   "array_pop", "array_product", "array_push", "array_rand", "array_reduce", "array_replace",
   "array_replace_recursive", "array_reverse", "array_search", "array_shift", "array_slice",
   "array_splice", "array_sum", "array_udiff", "array_uintersect", "array_unique", "array_unshift",
   "array_values", "array_walk", "array_walk_recursive", "arsort", "asort", "compact", "count",
   "current", "each", "end", "extract", "in_array", "key", "key_exists", "krsort", "ksort", "list",
   "natcasesort", "natsort", "next", "pos", "prev", "range", "reset", "rsort", "shuffle", "sizeof",
   "sort", "uasort", "uksort", "usort", "abs", "acos", "acosh", "asin", "asinh", "atan", "atan2",
   "atanh", "base_convert", "bindec", "ceil", "cos", "cosh", "decbin", "dechex", "decoct",
   "deg2rad", "exp", "expm1", "floor", "fmod", "hexdec", "hypot", "intdiv", "is_finite",
   "is_infinite", "is_nan", "log", "log10", "log1p", "log2", "max", "min", "mt_getrandmax",
   "mt_rand", "mt_srand", "octdec", "pi", "pow", "rad2deg", "rand", "random_bytes", "random_int",
   "round", "sin", "sinh", "sqrt", "srand", "tan", "tanh", "getrandmax", "bcadd", "bcsub", "bcmul",
   "bcdiv", "bcmod", "bcpow", "bcsqrt", "bccomp", "bcscale", "boolval", "debug_zval_refcount",
   "doubleval", "empty", "floatval", "get_debug_type", "get_defined_vars", "get_resource_type",
   "gettype", "intval", "is_array", "is_bool", "is_callable", "is_countable", "is_double",
   "is_float", "is_int", "is_integer", "is_iterable", "is_long", "is_null", "is_numeric",
   "is_object", "is_resource", "is_scalar", "is_string", "isset", "print_r", "serialize",
   "settype", "strval", "unserialize", "unset", "var_dump", "var_export", "call_user_func",
   "call_user_func_array", "func_get_arg", "func_get_args", "func_num_args", "function_exists",
   "register_shutdown_function", "class_exists", "class_implements", "class_parents",
   "enum_exists", "get_called_class", "get_class", "get_class_methods", "get_class_vars",
   "get_object_vars", "get_parent_class", "interface_exists", "is_a", "is_subclass_of",
   "method_exists", "property_exists", "spl_autoload_register", "spl_object_hash", "spl_object_id",
   "trait_exists", "iterator_to_array", "iterator_count", "echo", "print", "die", "exit", "eval",
   "flush", "ob_start", "ob_get_clean", "ob_get_contents", "ob_end_clean", "ob_end_flush",
   "ob_get_level", "error_log", "error_reporting", "ini_get", "ini_set", "set_error_handler",
   "set_exception_handler", "restore_error_handler", "restore_exception_handler", "trigger_error",
   "user_error", "assert", "debug_backtrace", "debug_print_backtrace", "getenv", "putenv",
   "php_sapi_name", "php_uname", "phpinfo", "phpversion", "memory_get_usage",
   "memory_get_peak_usage", "gc_collect_cycles", "set_time_limit", "ignore_user_abort",
   "connection_status", "usleep", "sleep", "time_nanosleep", "extension_loaded", "dl", "define",
   "defined", "constant", "get_defined_constants", "version_compare", "checkdate", "date",
   "date_create", "date_default_timezone_get", "date_default_timezone_set", "date_diff", "gmdate",
   "hrtime", "idate", "localtime", "microtime", "mktime", "strftime", "strtotime", "time",
   "gmmktime", "date_parse", "basename", "chdir", "chgrp", "chmod", "chown", "clearstatcache",
   "copy", "dirname", "disk_free_space", "fclose", "feof", "fflush", "fgetc", "fgetcsv", "fgets",
   "file", "file_exists", "file_get_contents", "file_put_contents", "fileatime", "filemtime",
   "fileperms", "filesize", "filetype", "flock", "fnmatch", "fopen", "fpassthru", "fputcsv",
   "fputs", "fread", "fscanf", "fseek", "fstat", "ftell", "ftruncate", "fwrite", "getcwd", "glob",
   "is_dir", "is_executable", "is_file", "is_link", "is_readable", "is_uploaded_file",
   "is_writable", "is_writeable", "link", "mkdir", "move_uploaded_file", "opendir",
   "parse_ini_file", "pathinfo", "pclose", "popen", "readdir", "readfile", "readlink", "realpath",
   "rename", "rewind", "rewinddir", "rmdir", "scandir", "stat", "symlink", "tempnam", "tmpfile",
   "touch", "umask", "unlink", "closedir", "sys_get_temp_dir", "json_decode", "json_encode",
   "json_last_error", "json_last_error_msg", "preg_grep", "preg_last_error", "preg_match",
   "preg_match_all", "preg_quote", "preg_replace", "preg_replace_callback", "preg_split",
   "base64_decode", "base64_encode", "http_build_query", "parse_url", "rawurldecode",
   "rawurlencode", "urldecode", "urlencode", "get_headers", "header", "header_remove",
   "headers_list", "headers_sent", "http_response_code", "setcookie", "setrawcookie",
   "session_start", "session_destroy", "session_id", "session_regenerate_id", "session_unset",
   "session_write_close", "session_status", "session_name", "crypt", "hash", "hash_algos",
   "hash_equals", "hash_file", "hash_hmac", "password_hash", "password_needs_rehash",
   "password_verify", "openssl_decrypt", "openssl_encrypt", "openssl_random_pseudo_bytes",
   "openssl_sign", "openssl_verify", "curl_close", "curl_errno", "curl_error", "curl_exec",
   "curl_getinfo", "curl_init", "curl_setopt", "curl_setopt_array", "fsockopen", "gethostbyname",
   "gethostname", "mail", "escapeshellarg", "escapeshellcmd", "exec", "passthru", "proc_open",
   "shell_exec", "system", "mysql_connect", "mysql_query", "mysql_fetch_array",
   "mysql_fetch_assoc", "mysql_num_rows", "mysql_close", "mysql_select_db",
   "mysql_real_escape_string", "mysql_error", "mysqli_connect", "mysqli_query",
   "mysqli_fetch_assoc", "mysqli_fetch_array", "mysqli_num_rows", "mysqli_close",
   "mysqli_real_escape_string", "mysqli_error", "mysqli_prepare", "mysqli_stmt_execute",
   "filter_input", "filter_var", "ctype_alnum", "ctype_alpha", "ctype_digit", "ctype_lower",
   "ctype_space", "ctype_upper", "ctype_xdigit", "gzcompress", "gzuncompress", "gzencode",
   "gzdecode", "simplexml_load_string", "simplexml_load_file"]

end PhpCalls.Builtin
